/-
# Edgewarden.Ota.Download — the bytes between `start_download` and `verify`.

The staging buffer lives in memory only, while `Downloading` is journaled. It is cleared by `start_download`,
by `recover`, by `rollback` and by a commit, and it is not there after `open`; a `verify` that fails leaves
it, and so does a `start_download` that is a duplicate.

* §1 reads the download off the history of a run: the chunks of all `ingest_chunk` calls that returned `Ok`
  since the last moment of a given kind.
* `verified_is_downloaded`: while journal requests do not fail, what `verify` hashes and stages is what was
  accepted since the last `open` or the last `start_download` that returned `Ok(true)`.
* `staged_is_downloaded`: the same whatever fails. A `start_download` whose journal write fails then counts
  too: it has cleared the buffer and entered `Downloading` before that.
* `download_bounded_iff`: the size check looks at one chunk at a time, and its sum is a `u64`.
-/
import Edgewarden.Ota.Admission
import Edgewarden.Ota.Provenance

namespace Edgewarden.Ota

open Edgewarden.FaultIo Edgewarden.Text

/-! ## §1 What a history has downloaded. -/

/-- The chunk of an `ingest_chunk` that returns `Ok`. -/
def acceptedChunk (s : OtaStep) : Bytes :=
  match s.call, s.event.reply with
  | .ingestChunk chunk _, some (.ok _) => chunk
  | _, _ => []

/-- An `open` that returns `Ok`. -/
def isOpened (s : OtaStep) : Bool :=
  match s.call, s.event.reply with
  | .open, some (.ok _) => true
  | _, _ => false

/-- A `start_download` that returns `Ok(true)`. -/
def isStarted (s : OtaStep) : Bool :=
  match s.call, s.event.reply with
  | .startDownload _, some (.ok (.started true)) => true
  | _, _ => false

/-- A `start_download` that returns an I/O error. -/
def isStartCut (s : OtaStep) : Bool :=
  match s.call, s.event.reply with
  | .startDownload _, some (.error .io) => true
  | _, _ => false

/-- A moment from which the download is counted. -/
def begins (s : OtaStep) : Bool := isOpened s || isStarted s

/-- The same when a `start_download` may fail its journal write. -/
def beginsAnew (s : OtaStep) : Bool := begins s || isStartCut s

/-- One moment of a download that is counted from the moments `reset`. -/
def downloadStep (reset : OtaStep → Bool) (g : Bytes) (s : OtaStep) : Bytes :=
  if reset s then [] else g ++ acceptedChunk s

/-- The chunks accepted since the last moment in `reset`, in order. -/
def chunksSince (reset : OtaStep → Bool) (steps : List OtaStep) : Bytes := steps.foldl (downloadStep reset) []

/-! ## §2 What a call does to the buffer. -/

/-- A manager that downloads has `g` in its buffer. -/
def Holds (g : Bytes) (mem : Option OtaManager) : Prop :=
  ∀ a, mem = some a → a.state = .downloading → a.buffered = g

/-- A call that returns `b` keeps the buffer in step with the history. -/
def Tracks (c : Call) (w₀ : OtaWorld) (m : Option OtaManager) (d : Disk)
    (r : Except OtaError Reply × Option OtaManager) : Prop :=
  ∀ g, Holds g w₀.mem → Holds (downloadStep beginsAnew g ⟨c, w₀, .ret m r.2 r.1 d⟩) r.2

section Calls

variable {crypto : Crypto} {key : Bytes} {m : OtaManager} {d : Disk} {manifest : OtaManifest}

/-- The manager is as it was, or does not download. -/
def Leaves (m m' : OtaManager) : Prop := m' = m ∨ m'.state ≠ .downloading

theorem always_leave (m₀ : OtaManager) (s : OtaState) (hs : s ≠ .downloading) :
    MethodAlways device (setState s) (fun _ r => Leaves m₀ r.2) m d :=
  always_setState (fun _ _ => .inr hs) (fun _ _ => .inr hs)

theorem always_markRebootPending : MethodAlways device markRebootPending (fun _ r => Leaves m r.2) m d := by
  refine method_always_guard (fun _ _ => .inl rfl) fun _ => ?_
  exact always_leave m .rebootPending nofun

theorem always_simulateReboot : MethodAlways device simulateReboot (fun _ r => Leaves m r.2) m d := by
  refine method_always_guard (fun _ _ => .inl rfl) fun _ => ?_
  refine method_always_bind (always_setState ?_ ?_)
  · intro _ _
    exact always_leave m .healthChecking nofun
  · intro _ _
    exact .inr nofun

/-- Also as the second half of a negative health check, which has left already. -/
theorem always_rollback (m₀ : OtaManager) (h : Leaves m₀ m) :
    MethodAlways device rollback (fun _ r => Leaves m₀ r.2) m d := by
  refine method_always_guard (fun _ _ => h) fun _ => ?_
  exact method_always_modify (always_leave m₀ .rolledBack nofun)

theorem always_healthCheck {healthy : Bool} {detail : String} :
    MethodAlways device (healthCheck healthy detail) (fun _ r => Leaves m r.2) m d := by
  refine method_always_guard (fun _ _ => .inl rfl) fun _ => ?_
  cases healthy with
  | true => exact method_always_modify (always_leave m .committed nofun)
  | false =>
      refine method_always_modify (method_always_bind (always_setState ?_ ?_))
      · intro _ _
        exact always_rollback m (.inr nofun)
      · intro _ _
        exact .inr nofun

theorem always_recover : MethodAlways device recover (fun _ r => Leaves m r.2) m d := by
  have hleave : ∀ (m' : OtaManager) (s : OtaState), s ≠ .downloading →
      MethodAlways device (do setState s; return (← get).state) (fun _ r => Leaves m r.2) m' d := by
    intro m' s hs
    refine method_always_bind (always_setState ?_ ?_)
    · intro _ _ _
      exact .inr hs
    · intro _ _
      exact .inr hs
  refine method_always_get ?_
  obtain ⟨s, _, _, _, _, _, _, _⟩ := m
  cases s with
  | downloading => exact method_always_modify (hleave _ .idle nofun)
  | verifying => exact method_always_modify (hleave _ .idle nofun)
  | rebootPending => exact hleave _ .healthChecking nofun
  | bootingCandidate => exact hleave _ .healthChecking nofun
  | healthChecking => exact hleave _ .healthChecking nofun
  | _ => exact fun _ => .inl rfl

/-- What `verify` says about the bytes of `m`, on the disk it leaves. -/
structure Verdict (crypto : Crypto) (manifest : OtaManifest) (m : OtaManager) (d' : Disk)
    (r : Except OtaError Unit × OtaManager) : Prop where
  mismatch : ∀ expected got, r.1 = .error (.hashMismatch expected got) →
    m.state = .downloading ∧ got = String.ofList (hexEncode (crypto.sha256 m.buffered))
  staged : r.1 = .ok () → m.state = .downloading ∧
    hexEncode (crypto.sha256 m.buffered) = toLowercase manifest.artifactSha256Hex.toList ∧
    r.2.state = .staged ∧ (d'.slots r.2.stagingSlot).artifact = some m.buffered
  leaves : Leaves m r.2

/-- An error other than a mismatch says nothing. -/
theorem verdict_error {e : OtaError} {m' : OtaManager} (he : ∀ expected got, e ≠ .hashMismatch expected got)
    (h : Leaves m m') : Verdict crypto manifest m d (.error e, m') :=
  ⟨fun expected got heq => absurd (Except.error.inj heq) (he expected got), nofun, h⟩

/-- The slot directory, the artifact, the version file, then `Staged`. -/
theorem always_stage {m₀ : OtaManager} (hm : m = { m₀ with state := .verifying }) (hs : m₀.state = .downloading)
    (hhash : hexEncode (crypto.sha256 m₀.buffered) = toLowercase manifest.artifactSha256Hex.toList) :
    MethodAlways device
      (do
        tryRequest (.createSlotDir m₀.stagingSlot)
        tryRequest (.writeArtifact m₀.stagingSlot m₀.buffered)
        tryRequest (.writeVersion m₀.stagingSlot manifest.version)
        setState .staged)
      (fun d' r => Verdict crypto manifest m₀ d' r) m d := by
  subst hm
  have hio : ∀ (d' : Disk) (s : OtaState), s ≠ .downloading →
      Verdict crypto manifest m₀ d' (.error .io, { m₀ with state := s }) :=
    fun _ _ hs' => verdict_error nofun (.inr hs')
  refine method_always_requestOr ?_ fun _ => hio _ .verifying nofun
  refine method_always_requestOr ?_ fun _ => hio _ .verifying nofun
  refine method_always_requestOr ?_ fun _ => hio _ .verifying nofun
  refine always_setState ?_ fun _ _ => hio _ .staged nofun
  intro d' hslots
  refine ⟨nofun, fun _ => ⟨hs, hhash, rfl, ?_⟩, .inr nofun⟩
  show (d'.slots m₀.stagingSlot).artifact = _
  rw [hslots]
  simp [device, Req.complete]

theorem checkSignature_ne_mismatch {key bytes : Bytes} {expected got : String} :
    checkSignature crypto key bytes manifest ≠ .error (.hashMismatch expected got) := by
  unfold checkSignature
  intro h
  split at h
  · cases h
  · split at h
    · cases h
    · split at h <;> cases h

/-- **`verify`, whatever fails**: its hash is that of the buffer, and so is what it stages. -/
theorem always_verify : MethodAlways device (verify crypto manifest) (fun d' r => Verdict crypto manifest m d' r) m d := by
  refine method_always_guard (fun _ _ => verdict_error nofun (.inl rfl)) fun hguard => ?_
  have hs : m.state = .downloading := not_not.mp hguard
  refine method_always_bind (always_setState ?_ fun _ _ => verdict_error nofun (.inr nofun))
  intro d' _
  show MethodAlways device (if hexEncode (crypto.sha256 m.buffered) ≠ _ then _ else _) _ _ d'
  by_cases hhash : hexEncode (crypto.sha256 m.buffered) = toLowercase manifest.artifactSha256Hex.toList
  swap
  · rw [if_pos hhash]
    refine method_always_modify (method_always_bind (always_setState ?_ ?_))
    · intro _ _ _
      refine ⟨?_, nofun, .inr nofun⟩
      rintro _ _ ⟨⟩
      exact ⟨hs, rfl⟩
    · intro _ _
      exact verdict_error nofun (.inr nofun)
  rw [if_neg (not_not.mpr hhash)]
  cases hsig : checkSignature crypto m.verifyingKey m.buffered manifest with
  | error e =>
      intro _
      refine verdict_error ?_ (.inr nofun)
      rintro _ _ rfl
      exact absurd hsig checkSignature_ne_mismatch
  | ok accepted =>
      cases accepted with
      | false =>
          refine method_always_modify (method_always_bind (always_setState ?_ ?_))
          · intro _ _ _
            exact verdict_error nofun (.inr nofun)
          · intro _ _
            exact verdict_error nofun (.inr nofun)
      | true => exact always_stage rfl hs hhash

end Calls

/-! ## §3 Runs. -/

section Runs

variable {crypto : Crypto} {key : Bytes} {c : Call} {w₀ : OtaWorld}

/-- The calls that neither begin a download nor add to it. -/
def Call.bystander : Call → Bool
  | .open | .startDownload _ | .ingestChunk _ _ => false
  | _ => true

theorem downloadStep_bystander (h : c.bystander = true)
    (e : Event (Option OtaManager) Req Tear Disk (Except OtaError Reply)) (g : Bytes) :
    downloadStep beginsAnew g ⟨c, w₀, e⟩ = g := by
  cases c <;> simp_all [Call.bystander, downloadStep, beginsAnew, begins, isOpened, isStarted, isStartCut, acceptedChunk]

/-- A moment inside a call adds nothing. -/
theorem downloadStep_io (g : Bytes) (m m' : Option OtaManager) (q : Req) (f : Fault Tear) (d : Disk) :
    downloadStep beginsAnew g ⟨c, w₀, .io m m' q f d⟩ = g := by
  cases c <;> simp [downloadStep, beginsAnew, begins, isOpened, isStarted, isStartCut, acceptedChunk, Event.reply]

/-- What is known at the return of a call. -/
structure DownloadReturn (crypto : Crypto) (c : Call) (w₀ : OtaWorld) (m : Option OtaManager) (d : Disk)
    (r : Except OtaError Reply × Option OtaManager) : Prop where
  tracks : Tracks c w₀ m d r
  verdict : ∀ manifest, c = .verify manifest → w₀.mem = none ∧ (∃ e, r.1 = .error (.other e)) ∨
    ∃ a v, w₀.mem = some a ∧ Verdict crypto manifest a d v ∧ r = (v.1.map fun _ => .unit, some v.2)

theorem tracks_none {m : Option OtaManager} {d : Disk} {b : Except OtaError Reply} : Tracks c w₀ m d (b, none) :=
  fun _ _ _ ha => (by cases ha)

theorem tracks_leaves {m : Option OtaManager} {d : Disk} {b : Except OtaError Reply} {a a' : OtaManager}
    (hmem : w₀.mem = some a) (h : Leaves a a')
    (hstep : ∀ g, downloadStep beginsAnew g ⟨c, w₀, .ret m (some a') b d⟩ = g) :
    Tracks c w₀ m d (b, some a') := by
  intro g hholds a'' ha'' hs
  obtain rfl := Option.some.inj ha''
  rw [hstep]
  rcases h with rfl | hne
  · exact hholds a' hmem hs
  · exact absurd hs hne

/-- A method of a live manager. -/
theorem onManager_always {α : Type} {x : OtaM α} {reply : α → Reply}
    {E : OtaManager → Disk → Except OtaError α × OtaManager → Prop}
    {P : Option OtaManager → Disk → Except OtaError Reply × Option OtaManager → Prop}
    (hnone : ∀ p d e, w₀.mem = none → P p d (.error (.other e), none))
    (h : ∀ a, w₀.mem = some a → MethodAlways device x (E a) a w₀.disk)
    (hE : ∀ a p d r, w₀.mem = some a → E a d r → P p d (r.1.map reply, some r.2)) :
    (onManager x reply w₀).Follows device (fun _ => True) (fun _ _ _ _ => True) P w₀.mem w₀.disk := by
  unfold onManager
  cases hm : w₀.mem with
  | none => exact hnone _ _ _ hm
  | some a => exact Prog.follows_bind.mpr (Prog.Follows.mono (h a hm (some a)) fun p d r hr => hE a p d r hm hr)

/-- A bystander other than `verify`. -/
theorem bystander_follows {α : Type} {x : OtaM α} {reply : α → Reply} (hc : c.bystander = true)
    (hverify : ∀ manifest, c ≠ .verify manifest)
    (h : ∀ a, MethodAlways device x (fun _ r => Leaves a r.2) a w₀.disk) :
    (onManager x reply w₀).Follows device (fun _ => True) (fun _ _ _ _ => True) (DownloadReturn crypto c w₀)
      w₀.mem w₀.disk := by
  refine onManager_always ?_ (fun a _ => h a) ?_
  · intro _ _ _ _
    exact ⟨tracks_none, fun manifest hv => absurd hv (hverify manifest)⟩
  · intro a _ _ r hmem hr
    exact ⟨tracks_leaves hmem hr fun _ => downloadStep_bystander hc _ _,
      fun manifest hv => absurd hv (hverify manifest)⟩

theorem startGate_ne_io {m : OtaManager} {manifest : OtaManifest} : m.startGate manifest ≠ .error .io := by
  unfold OtaManager.startGate OtaManager.downgradeGate
  intro h
  split at h
  · split at h
    · cases h
    · split at h
      · cases h
      · split at h
        · split at h <;> cases h
        · cases h
  · split at h
    · split at h <;> cases h
    · cases h

/-- A refused or repeated `start_download` changes nothing and counts for nothing; one that is let in
clears the buffer, whether its journal write succeeds or not. -/
theorem startDownload_tracks {manifest : OtaManifest} (a : OtaManager) (hmem : w₀.mem = some a) :
    MethodAlways device (startDownload manifest)
      (fun d r => ∀ p, Tracks (.startDownload manifest) w₀ p d (r.1.map .started, some r.2)) a w₀.disk := by
  by_cases hgate : a.startGate manifest = .ok true
  · intro prev
    refine Prog.Follows.mono (always_startDownload hgate prev) ?_
    rintro _ d ⟨r, m'⟩ ⟨hr, rfl⟩ p g _ a' ha' _
    cases ha'
    rcases hr with rfl | rfl
    · rfl
    · rfl
  · refine method_always_get ?_
    have hsame : ∀ b, a.startGate manifest = b → ∀ p d,
        Tracks (.startDownload manifest) w₀ p d (b.map .started, some a) := by
      intro b hb p d
      refine tracks_leaves hmem (.inl rfl) ?_
      intro g
      rcases b with e | _ | _
      · have hio : e ≠ .io := by
          rintro rfl
          exact startGate_ne_io hb
        cases e <;>
          simp_all [downloadStep, beginsAnew, begins, isOpened, isStarted, isStartCut, acceptedChunk, Event.reply, Except.map]
      · simp [downloadStep, beginsAnew, begins, isOpened, isStarted, isStartCut, acceptedChunk, Event.reply, Except.map]
      · exact absurd hb hgate
    rcases hb : a.startGate manifest with e | _ | _
    · exact fun _ p => hsame _ hb p _
    · exact fun _ p => hsame _ hb p _
    · exact absurd hb hgate

theorem ingestChunk_tracks {chunk : Bytes} {manifest : OtaManifest} (a : OtaManager) (hmem : w₀.mem = some a) :
    MethodAlways device (ingestChunk chunk manifest)
      (fun d r => ∀ p, Tracks (.ingestChunk chunk manifest) w₀ p d (r.1.map fun _ => .unit, some r.2)) a w₀.disk := by
  have hrefused : ∀ (e : OtaError) p d, Tracks (.ingestChunk chunk manifest) w₀ p d (.error e, some a) := by
    intro e p d
    refine tracks_leaves hmem (.inl rfl) ?_
    intro g
    simp [downloadStep, beginsAnew, begins, isOpened, isStarted, isStartCut, acceptedChunk, Event.reply]
  refine method_always_guard (fun _ _ p => hrefused _ p _) fun hguard => ?_
  have hs : a.state = .downloading := not_not.mp hguard
  split
  · exact fun _ p => hrefused _ p _
  · intro _ p g hholds a' ha' _
    cases ha'
    show a.buffered ++ chunk = g ++ chunk
    rw [hholds a hmem hs]

/-- **Every call keeps the buffer in step with the history.** -/
theorem download_follows (crypto : Crypto) (key : Bytes) (c : Call) (w : OtaWorld) :
    ((ota crypto key).prog c w).Follows (ota crypto key).dev (fun _ => True) (fun _ _ _ _ => True)
      (DownloadReturn crypto c w) w.mem w.disk := by
  cases c with
  | «open» =>
      -- a manager that `open` has built has nothing in its buffer, and the count begins anew
      have hopened : ∀ (a : OtaManager) (p : Option OtaManager) (d : Disk), a.candidateBytes = none →
          DownloadReturn crypto .open w p d (.ok .unit, some a) := by
        intro a p d hnone
        refine ⟨?_, by simp⟩
        intro g _ a' ha' _
        obtain rfl := Option.some.inj ha'
        simp [OtaManager.buffered, hnone, downloadStep, beginsAnew, begins, isOpened, Event.reply]
      have hfailed : ∀ (e : OtaError) (p : Option OtaManager) (d : Disk),
          DownloadReturn crypto .open w p d (.error e, none) := fun _ _ _ => ⟨tracks_none, by simp⟩
      refine Prog.follows_bind.mpr ⟨trivial, ?_, fun _ _ => hfailed _ _ _⟩
      cases w.disk.journal with
      | some file =>
          refine ⟨trivial, ?_, fun _ _ => hfailed _ _ _⟩
          cases file with
          | garbled => exact hfailed _ _ _
          | whole p => exact hopened _ _ _ rfl
      | none =>
          have hpersist : MethodAlways device persist (fun _ r => r = (.ok (), OtaManager.initial key) ∨
              r = (.error .io, OtaManager.initial key)) (OtaManager.initial key) w.disk :=
            always_persist (fun _ _ => .inl rfl) (fun _ _ => .inr rfl)
          refine Prog.follows_bind.mpr (Prog.Follows.mono (hpersist none) ?_)
          rintro _ _ _ (rfl | rfl)
          · exact hopened _ _ _ rfl
          · exact hfailed _ _ _
  | startDownload manifest =>
      refine onManager_always ?_ startDownload_tracks ?_
      · exact fun _ _ _ _ => ⟨tracks_none, by simp⟩
      · exact fun _ p _ _ _ hr => ⟨hr p, by simp⟩
  | ingestChunk chunk manifest =>
      refine onManager_always ?_ ingestChunk_tracks ?_
      · exact fun _ _ _ _ => ⟨tracks_none, by simp⟩
      · exact fun _ p _ _ _ hr => ⟨hr p, by simp⟩
  | verify manifest =>
      refine onManager_always ?_ (fun _ _ => always_verify) ?_
      · exact fun _ _ _ hnone => ⟨tracks_none, fun _ _ => .inl ⟨hnone, _, rfl⟩⟩
      · intro a p d r hmem hr
        refine ⟨tracks_leaves hmem hr.leaves fun _ => downloadStep_bystander rfl _ _, ?_⟩
        rintro _ ⟨⟩
        exact .inr ⟨a, r, hmem, hr, rfl⟩
  | markRebootPending => exact bystander_follows rfl (by simp) fun _ => always_markRebootPending
  | simulateReboot => exact bystander_follows rfl (by simp) fun _ => always_simulateReboot
  | healthCheck healthy detail => exact bystander_follows rfl (by simp) fun _ => always_healthCheck
  | rollback => exact bystander_follows rfl (by simp) fun a => always_rollback a (.inl rfl)
  | recover => exact bystander_follows rfl (by simp) fun _ => always_recover
  | kill => exact ⟨tracks_none, by simp⟩

/-- What a moment of `verify` has to do with the downloaded bytes `g`. -/
structure DownloadExact (crypto : Crypto) (g : Bytes) (s : OtaStep) : Prop where
  /-- The buffer that a `verify` finds, if it is let in. -/
  hashed : ∀ manifest a, s.call = .verify manifest → s.entry.mem = some a → a.state = .downloading → a.buffered = g
  mismatch : ∀ manifest expected got, s.call = .verify manifest →
    s.event.reply = some (.error (.hashMismatch expected got)) →
      got = String.ofList (hexEncode (crypto.sha256 g))
  written : ∀ slot bytes, s.event.request = some (.writeArtifact slot bytes) → bytes = g
  staged : ∀ manifest r, s.call = .verify manifest → s.event.reply = some (.ok r) →
    hexEncode (crypto.sha256 g) = toLowercase manifest.artifactSha256Hex.toList ∧
      ∃ a, (s.event.after device none).mem = some a ∧ a.state = .staged ∧
        ((s.event.after device none).disk.slots a.stagingSlot).artifact = some g

/-- A request of a call that found `g` in the buffer. -/
theorem downloadExact_io {g : Bytes} {m m' : Option OtaManager} {q : Req} {f : Fault Tear} {d : Disk}
    (hholds : Holds g w₀.mem) (h : Micro crypto key c w₀ m d m' q) :
    DownloadExact crypto g ⟨c, w₀, .io m m' q f d⟩ where
  hashed _ a _ hmem hs := hholds a hmem hs
  mismatch _ _ _ _ hreply := by cases hreply
  written slot bytes hreq := by
    obtain rfl := Option.some.inj hreq
    cases h with
    | writeArtifact hst =>
        obtain ⟨a₀, hmem, hs, rfl⟩ := hst.entry
        exact hholds a₀ hmem hs
  staged _ _ _ hreply := by cases hreply

theorem downloadExact_ret {g : Bytes} {m m' : Option OtaManager} {b : Except OtaError Reply} {d : Disk}
    (hholds : Holds g w₀.mem) (h : DownloadReturn crypto c w₀ m d (b, m')) :
    DownloadExact crypto g ⟨c, w₀, .ret m m' b d⟩ where
  hashed _ a _ hmem hs := hholds a hmem hs
  mismatch manifest expected got hcall hreply := by
    obtain rfl := Option.some.inj hreply
    rcases h.verdict manifest hcall with ⟨-, e, he⟩ | ⟨a, ⟨r, a'⟩, hmem, hv, heq⟩
    · cases he
    · rcases r with e | _
      · cases heq
        obtain ⟨hs, hgot⟩ := hv.mismatch expected got rfl
        rw [hgot, hholds a hmem hs]
      · cases heq
  written _ _ hreq := by cases hreq
  staged manifest r hcall hreply := by
    obtain rfl := Option.some.inj hreply
    rcases h.verdict manifest hcall with ⟨-, e, he⟩ | ⟨a, ⟨r', a'⟩, hmem, hv, heq⟩
    · cases he
    · rcases r' with e | _
      · cases heq
      · cases heq
        obtain ⟨hs, hhash, hstate, hslot⟩ := hv.staged rfl
        rw [hholds a hmem hs] at hhash hslot
        exact ⟨hhash, a', rfl, hstate, hslot⟩

/-- The buffer of a manager that downloads is the download of the history. -/
def downloadInvariant (crypto : Crypto) (key : Bytes) :
    Invariant (ota crypto key) (fun _ => True) (fun _ => True) (Micro crypto key) (DownloadReturn crypto)
      Bytes where
  upd := downloadStep beginsAnew
  At g w := Holds g w.mem
  In g _ w₀ _ := Holds g w₀.mem
  Good g s := DownloadExact crypto g s
  enter h := h
  live inv h _ _ _ := by
    rw [downloadStep_io]
    exact ⟨downloadExact_io inv h, inv⟩
  die inv h _ := ⟨downloadExact_io inv h, fun _ ha => (by cases ha)⟩
  ret inv h _ := ⟨downloadExact_ret inv h, h.tracks _ inv⟩

/-- **What is staged is what was downloaded.** In every run, whatever fails and wherever the process dies, at
every moment of a `verify`: the bytes it hashes, those it writes to the candidate slot and those that are
there when it returns `Ok` are the chunks that `ingest_chunk` accepted since the last `open` that returned
`Ok` or the last `start_download` that returned `Ok(true)` or a journal error, in order. -/
theorem staged_is_downloaded (crypto : Crypto) (key : Bytes) (slots : Slot → SlotDir) (sched : Schedule)
    (pre post : List OtaStep) (s : OtaStep)
    (hrun : ((ota crypto key).run sched (factory slots)).1 = pre ++ s :: post) :
    DownloadExact crypto (chunksSince beginsAnew pre) s := by
  have hfollows : ∀ c w, ((ota crypto key).prog c w).Follows (ota crypto key).dev (fun _ => True)
      (Micro crypto key c w) (DownloadReturn crypto c w) w.mem w.disk := by
    intro c w
    have hboth := (ota_follows crypto key (fun _ => True) c w).and (download_follows crypto key c w)
    exact (hboth.mono fun _ _ _ h => h.2).mono_requests fun _ _ _ _ h => h.1
  have halong := ((downloadInvariant crypto key).along_run hfollows sched (g := []) (w := factory slots)
    (fun _ ha => (by cases ha)) (fun s _ => ⟨failsOnly_true s, trivial⟩)).1
  rw [hrun] at halong
  exact halong.at_split

/-! ## §4 Journal requests that do not fail. -/

/-- A `start_download` then ends with `Ok` or with an error of its gate. -/
theorem startDownload_answer {manifest : OtaManifest} {a : OtaManager} {prev : Option OtaManager} {d : Disk} :
    MethodFollows device slotErrorsOnly Anything (startDownload manifest) (fun _ _ r => r.1 ≠ .error .io)
      a prev d := by
  refine method_get ?_
  rcases hgate : a.startGate manifest with e | _ | _
  · rintro ⟨⟩
    exact startGate_ne_io hgate
  · exact nofun
  · refine method_bind (x := modify _) (method_bind (method_setState_ok ?_))
    intro _ he
    cases he

theorem startDownload_call_answer (crypto : Crypto) (key : Bytes) (manifest : OtaManifest) (w : OtaWorld) :
    ((ota crypto key).prog (.startDownload manifest) w).Follows (ota crypto key).dev slotErrorsOnly Anything
      (fun _ _ r => r.1 ≠ .error .io) w.mem w.disk := by
  show (onManager (startDownload manifest) .started w).Follows _ _ _ _ _ _
  unfold onManager
  cases hm : w.mem with
  | none => exact nofun
  | some a =>
      refine Prog.follows_bind.mpr (startDownload_answer.mono ?_)
      rintro _ _ ⟨r, b⟩ hb hio
      cases r with
      | error e => exact hb (congrArg Except.error (Except.error.inj hio))
      | ok _ => cases hio

/-- No call reports a `start_download` that was cut. -/
theorem startCut_follows (crypto : Crypto) (key : Bytes) (c : Call) (w : OtaWorld) :
    ((ota crypto key).prog c w).Follows (ota crypto key).dev slotErrorsOnly Anything
      (fun m d r => isStartCut ⟨c, w, .ret m r.2 r.1 d⟩ = false) w.mem w.disk := by
  cases c with
  | startDownload manifest =>
      refine (startDownload_call_answer crypto key manifest w).mono ?_
      rintro _ _ ⟨r, _⟩ hr
      rcases r with e | _
      · cases e <;> simp_all [isStartCut, Event.reply]
      · rfl
  | _ => exact (Prog.follows_true _ _ _).mono fun _ _ _ _ => rfl

/-- Nothing is remembered. -/
def uncutInvariant (crypto : Crypto) (key : Bytes) :
    Invariant (ota crypto key) slotErrorsOnly (fun _ => True) (fun _ _ => Anything)
      (fun c w m d r => isStartCut ⟨c, w, .ret m r.2 r.1 d⟩ = false) Unit where
  upd _ _ := ()
  At _ _ := True
  In _ _ _ _ := True
  Good _ s := isStartCut s = false
  enter _ := trivial
  live {_ c _ _ _ _ _ _} _ _ _ _ _ := ⟨by cases c <;> rfl, trivial⟩
  die {_ c _ _ _ _ _ _} _ _ _ := ⟨by cases c <;> rfl, trivial⟩
  ret _ h _ := ⟨h, trivial⟩

/-- So both counts are the same. -/
theorem chunksSince_uncut {steps : List OtaStep} (h : ∀ s ∈ steps, isStartCut s = false) :
    chunksSince beginsAnew steps = chunksSince begins steps := by
  refine List.foldl_ext _ _ _ ?_
  intro g s hs
  simp [downloadStep, beginsAnew, h s hs]

/-- **What is verified is what was downloaded.** In every run whose journal requests do not fail (the process
may die at any request, slot files may fail or tear), at every moment of a `verify`: the bytes it hashes,
those it writes to the candidate slot and those that are there when it returns `Ok` are the chunks that
`ingest_chunk` accepted since the later of the last `open` and the last `start_download` that returned
`Ok(true)`, in order. A duplicate `start_download` returns `Ok(false)` and so counts for nothing. -/
theorem verified_is_downloaded (crypto : Crypto) (key : Bytes) (slots : Slot → SlotDir) (sched : Schedule)
    (hfail : ∀ s ∈ ((ota crypto key).run sched (factory slots)).1, FailsOnly slotErrorsOnly s)
    (pre post : List OtaStep) (s : OtaStep)
    (hrun : ((ota crypto key).run sched (factory slots)).1 = pre ++ s :: post) :
    DownloadExact crypto (chunksSince begins pre) s := by
  have halong := ((uncutInvariant crypto key).along_run (startCut_follows crypto key) sched (g := ())
    (w := factory slots) trivial (fun s hs => ⟨hfail s hs, trivial⟩)).1
  rw [hrun] at halong
  have huncut : ∀ t ∈ pre, isStartCut t = false := by
    intro t ht
    obtain ⟨before, after, rfl⟩ := List.append_of_mem ht
    rw [List.append_assoc, List.cons_append] at halong
    exact halong.at_split
  rw [← chunksSince_uncut huncut]
  exact staged_is_downloaded crypto key slots sched pre post s hrun

end Runs

/-- A download that fails verification; a second one, started twice, whose process dies in the artifact
write of `verify`; after `open` and `recover` a third one, started twice, which is staged. -/
def thirdAttempt : Schedule :=
  [(.open, []), (.startDownload (signedManifest tabulated releaseSign [1] "1.0.0"), []),
    (.ingestChunk [1] (signedManifest tabulated releaseSign [1] "1.0.0"), []),
    (.verify (signedManifest tabulated releaseSign [] "1.0.0"), []),
    (.startDownload (signedManifest tabulated releaseSign [1] "1.0.0"), []),
    (.startDownload (signedManifest tabulated releaseSign [1] "1.0.0"), []),
    (.ingestChunk [1] (signedManifest tabulated releaseSign [1] "1.0.0"), []),
    (.verify (signedManifest tabulated releaseSign [1] "1.0.0"), [.ok, .ok, .ok, .ok, .ok, .die .untouched]),
    (.open, []), (.recover, []),
    (.startDownload (signedManifest tabulated releaseSign [1] "1.0.0"), []),
    (.ingestChunk [] (signedManifest tabulated releaseSign [1] "1.0.0"), []),
    (.startDownload (signedManifest tabulated releaseSign [1] "1.0.0"), []),
    (.ingestChunk [1] (signedManifest tabulated releaseSign [1] "1.0.0"), []),
    (.verify (signedManifest tabulated releaseSign [1] "1.0.0"), [])]

def thirdAttemptRun : List OtaStep := ((ota tabulated releaseKey).run thirdAttempt (factory emptySlots)).1

theorem thirdAttempt_failsOnly : ∀ s ∈ thirdAttemptRun, FailsOnly slotErrorsOnly s := by
  refine System.run_deaths_failsOnly _ ?_ _
  simp [thirdAttempt]

/-- The run is evaluated once: its last moment, and what was accepted before it. -/
theorem thirdAttemptRun_eval :
    61 < thirdAttemptRun.length ∧
      thirdAttemptRun[61]?.map (fun s => (s.call, s.event.reply.bind Except.toOption)) =
        some (.verify (signedManifest tabulated releaseSign [1] "1.0.0"), some .unit) ∧
      (thirdAttemptRun.take 61).flatMap acceptedChunk = [1, 1, 1] ∧
      chunksSince begins (thirdAttemptRun.take 61) = [1] := by
  decide +kernel

/-- Three bytes were accepted, and the last `verify` stages the one of the last attempt. -/
theorem verified_is_downloaded_thirdAttempt :
    ∃ (pre : List OtaStep) (s : OtaStep) (post : List OtaStep), thirdAttemptRun = pre ++ s :: post ∧
      s.call = .verify (signedManifest tabulated releaseSign [1] "1.0.0") ∧
      s.event.reply.bind Except.toOption = some .unit ∧
      pre.flatMap acceptedChunk = [1, 1, 1] ∧ chunksSince begins pre = [1] ∧
      DownloadExact tabulated (chunksSince begins pre) s := by
  obtain ⟨hlt, hat, haccepted, hsince⟩ := thirdAttemptRun_eval
  rw [List.getElem?_eq_getElem hlt, Option.map_some] at hat
  obtain ⟨hcall, hreply⟩ := Prod.mk.inj (Option.some.inj hat)
  have hsplit := split_at hlt
  exact ⟨_, _, _, hsplit, hcall, hreply, haccepted, hsince,
    verified_is_downloaded tabulated releaseKey emptySlots thirdAttempt thirdAttempt_failsOnly _ _ _ hsplit⟩

/-! ## §5 How much is buffered.

`chunk.len() as u64 > manifest.size_bytes + 1024 * 1024` is tested for each chunk, and nothing is tested for
the buffer: "chunk exceeds declared size" is never said of all chunks together. -/

section Bounds

variable {crypto : Crypto} {key : Bytes} {manifest : OtaManifest} {a : OtaManager} {d : Disk}

/-- The chunks of a list, one `ingest_chunk` each. -/
def ingestCalls (manifest : OtaManifest) (chunks : List Bytes) : Schedule :=
  chunks.map fun chunk => (.ingestChunk chunk manifest, [])

/-- A chunk that passes the test of the source. -/
def OtaManifest.fits (manifest : OtaManifest) (chunk : Bytes) : Bool :=
  decide (chunk.length % 2 ^ 64 ≤ (manifest.sizeBytes + 1024 * 1024).toNat)

/-- The declared size and a mebibyte, without a bound on the sum. -/
def OtaManifest.limit (manifest : OtaManifest) : Nat := manifest.sizeBytes.toNat + 1024 * 1024

theorem quiet_ingestChunk_refused {chunk : Bytes} (hs : a.state = .downloading)
    (hsize : ¬ chunk.length % 2 ^ 64 ≤ (manifest.sizeBytes + 1024 * 1024).toNat) :
    Method.quiet device (ingestChunk chunk manifest) a d =
      ((.error (.other "chunk exceeds declared size"), a), d) := by
  unfold ingestChunk
  rw [Method.quiet_get]
  simp only [hs, ne_eq, not_true_eq_false, if_false, if_pos (Nat.not_le.mp hsize)]
  rfl

/-- One chunk. -/
theorem ingest_world (crypto : Crypto) (key : Bytes) (manifest : OtaManifest) (d : Disk)
    (hs : a.state = .downloading) (chunk : Bytes) :
    ∃ a', ((callProg crypto key (.ingestChunk chunk manifest) ⟨some a, d⟩).exec device none (some a) [] d).2 =
        ⟨some a', d⟩ ∧
      a'.state = .downloading ∧ a'.buffered = a.buffered ++ if manifest.fits chunk then chunk else [] := by
  rw [Prog.exec_nil_world]
  by_cases hsize : chunk.length % 2 ^ 64 ≤ (manifest.sizeBytes + 1024 * 1024).toNat
  · have hquiet : (callProg crypto key (.ingestChunk chunk manifest) ⟨some a, d⟩).quiet device d = _ :=
      quiet_onManager (quiet_ingestChunk hs hsize)
    rw [hquiet]
    refine ⟨_, rfl, hs, ?_⟩
    have hfits : manifest.fits chunk = true := decide_eq_true hsize
    rw [if_pos hfits]
    rfl
  · have hquiet : (callProg crypto key (.ingestChunk chunk manifest) ⟨some a, d⟩).quiet device d = _ :=
      quiet_onManager (quiet_ingestChunk_refused hs hsize)
    rw [hquiet]
    refine ⟨_, rfl, hs, ?_⟩
    have hfits : manifest.fits chunk = false := decide_eq_false hsize
    simp [hfits]

/-- **All chunks**: the buffer has those that pass, one after the other. -/
theorem ingest_run (crypto : Crypto) (key : Bytes) (manifest : OtaManifest) (d : Disk)
    (hs : a.state = .downloading) (chunks : List Bytes) :
    ∃ a', ((ota crypto key).run (ingestCalls manifest chunks) ⟨some a, d⟩).2 = ⟨some a', d⟩ ∧
      a'.state = .downloading ∧ a'.buffered = a.buffered ++ (chunks.filter manifest.fits).flatten := by
  induction chunks generalizing a with
  | nil => exact ⟨a, rfl, hs, by simp⟩
  | cons chunk chunks ih =>
      obtain ⟨a₁, hworld, hs₁, hbytes₁⟩ := ingest_world crypto key manifest d hs chunk
      obtain ⟨a₂, hrun, hs₂, hbytes₂⟩ := ih hs₁
      refine ⟨a₂, ?_, hs₂, ?_⟩
      · rw [← hrun, ← hworld]
        rfl
      · rw [hbytes₂, hbytes₁, List.filter_cons]
        by_cases hfits : manifest.fits chunk = true
        · simp [hfits]
        · simp [hfits]

/-- The download of `chunks` on `w`: no test of a size overflows, and the buffer is never above the limit. -/
structure Bounded (crypto : Crypto) (key : Bytes) (w : OtaWorld) (manifest : OtaManifest) (chunks : List Bytes) :
    Prop where
  exact : chunks ≠ [] → manifest.limit < 2 ^ 64
  buffer : ∀ k a, ((ota crypto key).run (ingestCalls manifest (chunks.take k)) w).2.mem = some a →
    a.buffered.length ≤ manifest.limit

/-- The chunks no longer than the limit. -/
def OtaManifest.admissible (manifest : OtaManifest) (chunks : List Bytes) : List Bytes :=
  chunks.filter fun chunk => decide (chunk.length % 2 ^ 64 ≤ manifest.limit)

theorem fits_of_exact (h : manifest.limit < 2 ^ 64) (chunks : List Bytes) :
    chunks.filter manifest.fits = manifest.admissible chunks := by
  have hsum : (manifest.sizeBytes + 1024 * 1024).toNat = manifest.limit := by
    rw [UInt64.toNat_add]
    exact Nat.mod_eq_of_lt h
  refine List.filter_congr ?_
  intro chunk _
  rw [OtaManifest.fits, hsum]

/-- A `start_download` that returns `Ok(true)` leaves a manager that downloads, with nothing in its buffer. -/
theorem started_mem {w : OtaWorld} {fs : List (Fault Tear)}
    (h : (oneCall crypto key w (.startDownload manifest) fs).1 = [.ok (.started true)]) :
    ∃ m : OtaManager, (oneCall crypto key w (.startDownload manifest) fs).2.mem =
      some (m.begun manifest.version) := by
  obtain ⟨_ | m, d⟩ := w
  · cases h
  · by_cases hgate : m.startGate manifest = .ok true
    · have hends := startDownload_begins (d := d) crypto key hgate fs
      rw [h] at hends
      generalize (oneCall crypto key ⟨some m, d⟩ (.startDownload manifest) fs).2.mem = mem at hends ⊢
      cases hends
      exact ⟨m, rfl⟩
    · rw [startDownload_stopped crypto key rfl hgate fs] at h
      rcases hb : m.startGate manifest with e | _ | _
      · rw [hb] at h
        cases h
      · rw [hb] at h
        cases h
      · exact absurd hb hgate

theorem bounded_iff {w : OtaWorld} (hmem : w.mem = some a) (hs : a.state = .downloading)
    (hempty : a.buffered = []) (chunks : List Bytes) :
    Bounded crypto key w manifest chunks ↔
      chunks = [] ∨ manifest.limit < 2 ^ 64 ∧ (manifest.admissible chunks).flatten.length ≤ manifest.limit := by
  have hw : w = ⟨some a, w.disk⟩ := by rw [← hmem]
  have hbuffer : ∀ (chunks : List Bytes) (a' : OtaManager),
      ((ota crypto key).run (ingestCalls manifest chunks) w).2.mem = some a' →
        a'.buffered = (chunks.filter manifest.fits).flatten := by
    intro chunks a' ha'
    obtain ⟨a'', hrun, _, hbytes⟩ := ingest_run crypto key manifest w.disk hs chunks
    rw [hw, hrun] at ha'
    rw [← Option.some.inj ha', hbytes, hempty, List.nil_append]
  constructor
  · intro h
    by_cases hnil : chunks = []
    · exact .inl hnil
    · have hexact := h.exact hnil
      obtain ⟨a', hrun, _, _⟩ := ingest_run crypto key manifest w.disk hs chunks
      have hall : ((ota crypto key).run (ingestCalls manifest (chunks.take chunks.length)) w).2.mem = some a' := by
        rw [List.take_length, hw, hrun]
      have hle := h.buffer chunks.length a' hall
      rw [hbuffer _ a' hall, List.take_length, fits_of_exact hexact] at hle
      exact .inr ⟨hexact, hle⟩
  · rintro (rfl | ⟨hexact, hle⟩)
    · refine ⟨fun h => absurd rfl h, ?_⟩
      intro k a' ha'
      rw [List.take_nil] at ha'
      simp [hbuffer [] a' ha']
    · refine ⟨fun _ => hexact, ?_⟩
      intro k a' ha'
      rw [hbuffer _ a' ha', fits_of_exact hexact]
      -- a part of the list has no more bytes than the whole
      have hsplit : (manifest.admissible chunks).flatten.length =
          (manifest.admissible (chunks.take k)).flatten.length +
            (manifest.admissible (chunks.drop k)).flatten.length := by
        conv_lhs => rw [← List.take_append_drop k chunks]
        simp only [OtaManifest.admissible, List.filter_append, List.flatten_append, List.length_append]
      omega

/-- **How much a download buffers.** After every `start_download` that returns `Ok(true)`, in any run: a
sequence of `ingest_chunk` calls overflows nowhere and buffers at most the declared size and a mebibyte if
and only if it is empty, or that sum is below `2^64` and the chunks that are not longer than it are not
longer all together. -/
theorem download_bounded_iff (crypto : Crypto) (key : Bytes) (slots : Slot → SlotDir) (sched : Schedule)
    (manifest : OtaManifest) (fs : List (Fault Tear))
    (hstart : (oneCall crypto key ((ota crypto key).run sched (factory slots)).2 (.startDownload manifest) fs).1 =
      [.ok (.started true)]) (chunks : List Bytes) :
    Bounded crypto key
        (oneCall crypto key ((ota crypto key).run sched (factory slots)).2 (.startDownload manifest) fs).2
        manifest chunks ↔
      chunks = [] ∨ manifest.limit < 2 ^ 64 ∧ (manifest.admissible chunks).flatten.length ≤ manifest.limit := by
  obtain ⟨m, hmem⟩ := started_mem hstart
  exact bounded_iff hmem rfl rfl chunks

end Bounds

/-- A manifest that declares this size. -/
def sized (size : UInt64) : OtaManifest := { signedManifest tabulated releaseSign [1] "1.0.0" with sizeBytes := size }

/-- A new device that has begun to download it. -/
def sizedWorld (size : UInt64) : OtaWorld :=
  (oneCall tabulated releaseKey ((ota tabulated releaseKey).run [(.open, [])] (factory emptySlots)).2
    (.startDownload (sized size)) []).2

theorem sized_started (size : UInt64) :
    (oneCall tabulated releaseKey ((ota tabulated releaseKey).run [(.open, [])] (factory emptySlots)).2
      (.startDownload (sized size)) []).1 = [.ok (.started true)] := rfl

theorem download_bounded_oneByte : Bounded tabulated releaseKey (sizedWorld 1) (sized 1) [[1]] := by
  refine (download_bounded_iff tabulated releaseKey emptySlots [(.open, [])] (sized 1) [] (sized_started 1)
    [[1]]).mpr (.inr ?_)
  decide +kernel

/-- A mebibyte of zeros. -/
def mebibyte : Bytes := List.replicate (1024 * 1024) 0

/-- For a declared size of one byte two chunks of a mebibyte are accepted; for one of `2^64 - 1` the limit of
the test wraps to a byte less than a mebibyte. -/
theorem two_chunks_exceed :
    ¬ Bounded tabulated releaseKey (sizedWorld 1) (sized 1) [mebibyte, mebibyte] ∧
      ¬ Bounded tabulated releaseKey (sizedWorld 0xFFFFFFFFFFFFFFFF) (sized 0xFFFFFFFFFFFFFFFF) [[1]] := by
  constructor
  · intro h
    have hlength : mebibyte.length = 1024 * 1024 := List.length_replicate
    have hlimit : (sized 1).limit = 1 + 1024 * 1024 := rfl
    have hadmissible : (sized 1).admissible [mebibyte, mebibyte] = [mebibyte, mebibyte] := by
      simp [OtaManifest.admissible, hlength, hlimit]
    rcases (bounded_iff (a := (OtaManager.initial releaseKey).begun "1.0.0") rfl rfl rfl _).mp h with hnil | ⟨-, hle⟩
    · cases hnil
    · rw [hadmissible, hlimit] at hle
      simp only [List.flatten_cons, List.flatten_nil, List.append_nil, List.length_append, hlength] at hle
      omega
  · intro h
    have hexact := h.exact (List.cons_ne_nil _ _)
    revert hexact
    decide +kernel

end Edgewarden.Ota
