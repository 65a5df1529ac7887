/-
# Edgewarden.Ota.Micro — everything an OTA call can do, request by request.

`Assign` lists every change of the manager's fields that precedes a journal write, `Micro` every
request a call can issue (with the memory and disk it is issued on) and `Return` every way a call
can end. `ota_follows` proves, ONCE for each call, that the programs of `Ota.Manager` do nothing
else. The results about runs never unfold a method again: they are case analyses of these three
relations through `Invariant.along_run`.
-/
import Edgewarden.Ota.Manager

namespace Edgewarden.Ota

open Edgewarden.FaultIo Edgewarden.Text

/-! ## §1 The micro-step relations. -/

/-- Nothing has been assigned, journaled or staged since the call was issued in `w₀`. -/
structure Entry (w₀ : OtaWorld) (a : OtaManager) (d : Disk) : Prop where
  mem : w₀.mem = some a
  journal : d.journal = w₀.disk.journal
  slots : d.slots = w₀.disk.slots

/-- The journal on disk decodes to the manager's fields. -/
def Journaled (a : OtaManager) (d : Disk) : Prop := d.journal = some (.whole a.record)

/-- `verify` past all its checks: the `Verifying` record is on disk and the buffered bytes carry a
signature that the device key accepts. -/
structure Staging (crypto : Crypto) (c : Call) (w₀ : OtaWorld) (a : OtaManager) (d : Disk)
    (manifest : OtaManifest) : Prop where
  call : c = .verify manifest
  entry : ∃ a₀, w₀.mem = some a₀ ∧ a₀.state = .downloading ∧ a = { a₀ with state := .verifying }
  journaled : Journaled a d
  hash : hexEncode (crypto.sha256 a.buffered) = toLowercase manifest.artifactSha256Hex.toList
  accepted : checkSignature crypto a.verifyingKey a.buffered manifest = .ok true

/-- The fields after the commit branch of `health_check`. -/
def OtaManager.commit (a : OtaManager) : OtaManager :=
  { a with
    state := .committed
    activeSlot := a.candidateSlot.getD a.activeSlot.other
    highestCommittedVersion := raiseWatermark a.candidateVersion a.highestCommittedVersion
    candidateSlot := none
    candidateVersion := none
    candidateBytes := none }

/-- The fields after `rollback`. -/
def OtaManager.rolledBack (a : OtaManager) : OtaManager :=
  { a with
    state := .rolledBack, candidateSlot := none, candidateVersion := none, candidateBytes := none }

/-- The fields after `start_download` admitted a manifest. -/
def OtaManager.begun (a : OtaManager) (v : String) : OtaManager :=
  { a with
    state := .downloading
    candidateSlot := some a.activeSlot.other
    candidateVersion := some v
    candidateBytes := none
    lastError := none }

/-- `start_download` gets past its duplicate, busy and downgrade exits. -/
def OtaManager.Admits (a : OtaManager) (v : String) : Prop :=
  (a.candidateVersion = none ∨ a.state.resting = true) ∧
    ∀ h, a.highestCommittedVersion = some h → compareVersions v h = .gt

/-- Every assignment to the manager's fields that a call hands to `persist`. -/
inductive Assign (crypto : Crypto) (w₀ : OtaWorld) :
    Call → OtaManager → Disk → OtaManager → Prop
  | start {a d manifest} : Entry w₀ a d → a.Admits manifest.version →
      Assign crypto w₀ (.startDownload manifest) a d (a.begun manifest.version)
  | verifying {a d manifest} : Entry w₀ a d → a.state = .downloading →
      Assign crypto w₀ (.verify manifest) a d { a with state := .verifying }
  | rejected {a d manifest e} : Journaled a d → a.state = .verifying →
      Assign crypto w₀ (.verify manifest) a d { a with state := .failed, lastError := some e }
  | staged {a d manifest} : Staging crypto (.verify manifest) w₀ a d manifest →
      d.slots a.stagingSlot = ⟨some a.buffered, some (.whole manifest.version)⟩ →
      Assign crypto w₀ (.verify manifest) a d { a with state := .staged }
  | rebootPending {a d} : Entry w₀ a d → a.state = .staged →
      Assign crypto w₀ .markRebootPending a d { a with state := .rebootPending }
  | booting {a d} : Entry w₀ a d → a.state = .rebootPending →
      Assign crypto w₀ .simulateReboot a d { a with state := .bootingCandidate }
  | checking {a d} : Journaled a d → a.state = .bootingCandidate →
      Assign crypto w₀ .simulateReboot a d { a with state := .healthChecking }
  | commit {a d detail} : Entry w₀ a d → a.state = .healthChecking →
      Assign crypto w₀ (.healthCheck true detail) a d a.commit
  | unhealthy {a d detail} : Entry w₀ a d → a.state = .healthChecking →
      Assign crypto w₀ (.healthCheck false detail) a d
        { a with state := .rollbackPending, lastError := some detail }
  | autoRollback {a d detail} : Journaled a d → a.state = .rollbackPending →
      Assign crypto w₀ (.healthCheck false detail) a d a.rolledBack
  | rollback {a d} : Entry w₀ a d →
      (a.state = .rollbackPending ∨ a.state = .healthChecking ∨ a.state = .failed) →
      Assign crypto w₀ .rollback a d a.rolledBack
  | restart {a d} : Entry w₀ a d → (a.state = .downloading ∨ a.state = .verifying) →
      Assign crypto w₀ .recover a d { a with state := .idle, candidateBytes := none }
  | recheck {a d} : Entry w₀ a d →
      (a.state = .rebootPending ∨ a.state = .bootingCandidate ∨ a.state = .healthChecking) →
      Assign crypto w₀ .recover a d { a with state := .healthChecking }

/-- The assignment from `a` to `b` is the commit branch of `health_check`. -/
def committing (a b : OtaManager) : Bool :=
  decide (a.state = .healthChecking ∧ b.state = .committed)

/-- Only the commit branch of `health_check` moves the active slot or the watermark, and it starts
from the fields the call was issued on. -/
theorem Assign.commit_or_keep {crypto : Crypto} {w₀ : OtaWorld} {c : Call} {a b : OtaManager}
    {d : Disk} (h : Assign crypto w₀ c a d b) :
    (committing a b = true ∧ (∃ detail, c = .healthCheck true detail) ∧ Entry w₀ a d ∧
      a.state = .healthChecking ∧ b = a.commit) ∨
    (committing a b = false ∧ b.activeSlot = a.activeSlot ∧
      b.highestCommittedVersion = a.highestCommittedVersion) := by
  cases h with
  | commit he hs => exact .inl ⟨by simp [committing, hs, OtaManager.commit], ⟨_, rfl⟩, he, hs, rfl⟩
  | _ =>
      exact .inr ⟨by simp [committing, OtaManager.begun, OtaManager.rolledBack], rfl, rfl⟩

/-- A bootable state is reached by staging, or from a bootable state with the candidate kept. -/
theorem Assign.bootable_cases {crypto : Crypto} {w₀ : OtaWorld} {c : Call} {a b : OtaManager}
    {d : Disk} (h : Assign crypto w₀ c a d b) (hb : b.state.bootable = true) :
    (∃ manifest, Staging crypto c w₀ a d manifest ∧
      d.slots a.stagingSlot = ⟨some a.buffered, some (.whole manifest.version)⟩ ∧
      b = { a with state := .staged }) ∨
    (a.state.bootable = true ∧ b.activeSlot = a.activeSlot ∧
      b.candidateVersion = a.candidateVersion) := by
  cases h with
  | staged hst hslot => exact .inl ⟨_, hst, hslot, rfl⟩
  | rebootPending _ hs => exact .inr ⟨by rw [hs]; rfl, rfl, rfl⟩
  | booting _ hs => exact .inr ⟨by rw [hs]; rfl, rfl, rfl⟩
  | checking _ hs => exact .inr ⟨by rw [hs]; rfl, rfl, rfl⟩
  | recheck _ hs => exact .inr ⟨by rcases hs with hs | hs | hs <;> rw [hs] <;> rfl, rfl, rfl⟩
  | start _ _ => cases hb
  | verifying _ _ => cases hb
  | rejected _ _ => cases hb
  | commit _ _ => cases hb
  | unhealthy _ _ => cases hb
  | autoRollback _ _ => cases hb
  | rollback _ _ => cases hb
  | restart _ _ => cases hb

theorem Assign.verifyingKey {crypto : Crypto} {w₀ : OtaWorld} {c : Call} {a b : OtaManager}
    {d : Disk} (h : Assign crypto w₀ c a d b) : b.verifyingKey = a.verifyingKey := by
  cases h <;> rfl

/-- Every request a call can issue: `Micro .. c w₀ m d m' q` is request `q` of call `c` issued in
world `w₀`, with memory `m'`, when the previous moment had memory `m` and the disk is `d`. -/
inductive Micro (crypto : Crypto) (key : Bytes) (c : Call) (w₀ : OtaWorld) :
    Option OtaManager → Disk → Option OtaManager → Req → Prop
  | createDir {m d} : c = .open → Micro crypto key c w₀ m d none .createDir
  | readJournal {d} : c = .open → Micro crypto key c w₀ none d none .readJournal
  | writeInitial {d} : c = .open → d.journal = none →
      Micro crypto key c w₀ none d (some (.initial key)) (.writeTmp (OtaManager.initial key).record)
  | renameInitial {d} : c = .open → d.journal = none →
      d.tmp = some (.whole (OtaManager.initial key).record) →
      Micro crypto key c w₀ (some (.initial key)) d (some (.initial key)) .renameJournal
  | writeTmp {a d b} : Assign crypto w₀ c a d b →
      Micro crypto key c w₀ (some a) d (some b) (.writeTmp b.record)
  | syncTmp {m d} : Micro crypto key c w₀ m d m .syncTmp
  | rename {a d₁ b d} : Assign crypto w₀ c a d₁ b → d.journal = d₁.journal → d.slots = d₁.slots →
      d.tmp = some (.whole b.record) → Micro crypto key c w₀ (some b) d (some b) .renameJournal
  | syncDir {m d} : Micro crypto key c w₀ m d m .syncDir
  | createSlotDir {a d manifest} : Staging crypto c w₀ a d manifest →
      Micro crypto key c w₀ (some a) d (some a) (.createSlotDir a.stagingSlot)
  | writeArtifact {a d manifest} : Staging crypto c w₀ a d manifest →
      Micro crypto key c w₀ (some a) d (some a) (.writeArtifact a.stagingSlot a.buffered)
  | writeVersion {a d manifest} : Staging crypto c w₀ a d manifest →
      (d.slots a.stagingSlot).artifact = some a.buffered →
      Micro crypto key c w₀ (some a) d (some a) (.writeVersion a.stagingSlot manifest.version)

/-- Every way a call can end. `cut` is the early return after a journal request failed, which
leaves the fields ahead of the journal; it needs a journal request that may fail. -/
inductive Return (key : Bytes) (mf : Req → Prop) (c : Call) (w₀ : OtaWorld) :
    Option OtaManager → Disk → Except OtaError Reply × Option OtaManager → Prop
  | noManager {d e} : w₀.mem = none → Return key mf c w₀ none d (.error e, none)
  | killed {m d} : c = .kill → Return key mf c w₀ m d (.ok .unit, none)
  | openFailed {m d e} : c = .open → Return key mf c w₀ m d (.error e, none)
  | openedFresh {d} : c = .open → Journaled (.initial key) d →
      Return key mf c w₀ (some (.initial key)) d (.ok .unit, some (.initial key))
  | opened {d p} : c = .open → d.journal = some (.whole p) →
      Return key mf c w₀ none d (.ok .unit, some (.ofRecord key p))
  | ingested {a d chunk manifest} : c = .ingestChunk chunk manifest → Entry w₀ a d →
      a.state = .downloading →
      Return key mf c w₀ (some a) d
        (.ok .unit, some { a with candidateBytes := some (a.buffered ++ chunk) })
  | settled {a d r} : Entry w₀ a d ∨ Journaled a d → Return key mf c w₀ (some a) d (r, some a)
  | cut {a d} : (∃ q : Req, q.isJournal = true ∧ mf q) →
      Return key mf c w₀ (some a) d (.error .io, some a)

/-! ## §2 Every call follows the relations. -/

section Calls

variable {crypto : Crypto} {key : Bytes} {mf : Req → Prop} {c : Call} {w₀ : OtaWorld}

theorem method_tryRequest {R : Option OtaManager → Disk → Option OtaManager → Req → Prop}
    {E : Option OtaManager → Disk → Except OtaError Unit × OtaManager → Prop} {m : OtaManager}
    {prev : Option OtaManager} {d : Disk} {q : Req} (hR : R prev d (some m) q)
    (hok : E (some m) (q.complete d) (.ok (), m))
    (hfail : mf q → ∀ t, E (some m) (q.tear t d) (.error .io, m)) :
    MethodFollows device mf R (tryRequest q) E m prev d :=
  method_requestOr hR hok hfail

/-- `persist`: the record goes to the temporary file and then, by `rename`, under the journal's
name. An error leaves the journal and the slots as they were. -/
theorem method_persist {E : Option OtaManager → Disk → Except OtaError Unit × OtaManager → Prop}
    {m : OtaManager} {prev : Option OtaManager} {d : Disk}
    (hwrite : Micro crypto key c w₀ prev d (some m) (.writeTmp m.record))
    (hrename : ∀ d', d'.journal = d.journal → d'.slots = d.slots →
      d'.tmp = some (.whole m.record) → Micro crypto key c w₀ (some m) d' (some m) .renameJournal)
    (hok : ∀ d', Journaled m d' → d'.slots = d.slots → E (some m) d' (.ok (), m))
    (hcut : (∃ q : Req, q.isJournal = true ∧ mf q) →
      ∀ d', d'.journal = d.journal → d'.slots = d.slots → E (some m) d' (.error .io, m)) :
    MethodFollows device mf (Micro crypto key c w₀) persist E m prev d := by
  -- the answers to the two `sync_all` requests are ignored, so both continuations are the same
  have hdir : ∀ d', Journaled m d' → d'.slots = d.slots →
      MethodFollows device mf (Micro crypto key c w₀) (do let _ ← request .syncDir) E m (some m) d' := by
    intro d' hj hs
    exact method_bind (method_request .syncDir (hok d' hj hs) (fun _ _ => hok d' hj hs))
  have hren : ∀ d', d'.journal = d.journal → d'.slots = d.slots →
      d'.tmp = some (.whole m.record) →
      MethodFollows device mf (Micro crypto key c w₀)
        (do tryRequest .renameJournal; let _ ← request .syncDir) E m (some m) d' := by
    intro d' hj hs ht
    refine method_bind (method_tryRequest (hrename d' hj hs ht) ?_ ?_)
    · refine hdir _ ?_ ?_
      · simp [Journaled, Req.complete, ht]
      · simpa [Req.complete, ht] using hs
    · intro hq _
      exact hcut ⟨_, rfl, hq⟩ d' hj hs
  refine method_get ?_
  refine method_bind (method_tryRequest hwrite ?_ ?_)
  · exact method_bind (method_request .syncTmp (hren _ rfl rfl rfl) (fun _ _ => hren _ rfl rfl rfl))
  · intro hq t
    cases t <;> exact hcut ⟨_, rfl, hq⟩ _ rfl rfl

/-- `set_state(s)` after assignments that, with the state, make up an `Assign`. -/
theorem method_setState {E : Option OtaManager → Disk → Except OtaError Unit × OtaManager → Prop}
    {a m : OtaManager} {s : OtaState} {d : Disk} (hassign : Assign crypto w₀ c a d { m with state := s })
    (hok : ∀ d', Journaled { m with state := s } d' → d'.slots = d.slots →
      E (some { m with state := s }) d' (.ok (), { m with state := s }))
    (hcut : (∃ q : Req, q.isJournal = true ∧ mf q) →
      ∀ d', E (some { m with state := s }) d' (.error .io, { m with state := s })) :
    MethodFollows device mf (Micro crypto key c w₀) (setState s) E m (some a) d :=
  method_bind (x := modify _) (method_persist (.writeTmp hassign)
    (fun _ hj hs ht => .rename hassign hj hs ht) hok (fun h d' _ _ => hcut h d'))

/-- How a method run by `onManager` may end. -/
abbrev Ends (key : Bytes) (mf : Req → Prop) (c : Call) (w₀ : OtaWorld) {α : Type} (reply : α → Reply)
    (p : Option OtaManager) (d : Disk) (r : Except OtaError α × OtaManager) : Prop :=
  Return key mf c w₀ p d (r.1.map reply, some r.2)

theorem startGate_ok_true {a : OtaManager} {manifest : OtaManifest}
    (h : a.startGate manifest = .ok true) : a.Admits manifest.version := by
  have hdown : a.downgradeGate manifest = .ok true →
      ∀ h, a.highestCommittedVersion = some h → compareVersions manifest.version h = .gt := by
    intro hd v hv
    by_contra hne
    simp [OtaManager.downgradeGate, hv, hne] at hd
  unfold OtaManager.startGate at h
  cases hc : a.candidateVersion with
  | none =>
      rw [hc] at h
      exact ⟨.inl hc, hdown h⟩
  | some v =>
      rw [hc] at h
      by_cases hr : a.state.resting = true
      · exact ⟨.inr hr, hdown (by simpa [hr] using h)⟩
      · by_cases hv : v = manifest.version <;> simp [hr, hv] at h

theorem startDownload_follows {manifest : OtaManifest} {a : OtaManager} {d : Disk}
    (h : Entry w₀ a d) :
    MethodFollows device mf (Micro crypto key (.startDownload manifest) w₀) (startDownload manifest)
      (Ends key mf (.startDownload manifest) w₀ .started) a (some a) d := by
  refine method_get ?_
  cases hg : a.startGate manifest with
  | error e => exact .settled (.inl h)
  | ok go =>
      cases go with
      | false => exact .settled (.inl h)
      | true =>
          refine method_bind (x := modify _)
            (method_bind (method_setState (.start h (startGate_ok_true hg)) ?_ ?_))
          · intro d' hj _
            exact .settled (.inr hj)
          · intro hq _
            exact .cut hq

theorem ingestChunk_follows {chunk : Bytes} {manifest : OtaManifest} {a : OtaManager} {d : Disk}
    (h : Entry w₀ a d) :
    MethodFollows device mf (Micro crypto key (.ingestChunk chunk manifest) w₀) (ingestChunk chunk manifest)
      (Ends key mf (.ingestChunk chunk manifest) w₀ fun _ => .unit) a (some a) d := by
  refine method_get ?_
  show MethodFollows device mf _ (if a.state ≠ .downloading then _ else _) _ a (some a) d
  by_cases hs : a.state = .downloading
  · rw [if_neg (not_not.mpr hs)]
    split
    · exact .settled (.inl h)
    · exact .ingested rfl h hs
  · rw [if_pos hs]
    exact .settled (.inl h)

/-- The staging tail of `verify`: slot directory, artifact, version file, then `Staged`. -/
theorem stage_follows {manifest : OtaManifest} {a : OtaManager} {d : Disk}
    (h : Staging crypto (.verify manifest) w₀ a d manifest) :
    MethodFollows device mf (Micro crypto key (.verify manifest) w₀)
      (do
        tryRequest (.createSlotDir a.stagingSlot)
        tryRequest (.writeArtifact a.stagingSlot a.buffered)
        tryRequest (.writeVersion a.stagingSlot manifest.version)
        setState .staged)
      (Ends key mf (.verify manifest) w₀ fun _ => .unit) a (some a) d := by
  -- slot writes leave the journal alone, so `Staging` is carried along
  have hkeep : ∀ d', d'.journal = d.journal → Staging crypto (.verify manifest) w₀ a d' manifest :=
    fun d' hj => { h with journaled := hj.trans h.journaled }
  refine method_bind (method_tryRequest (.createSlotDir h) ?_ ?_)
  · refine method_bind (method_tryRequest (.writeArtifact h) ?_ ?_)
    · have h₁ := hkeep ((Req.writeArtifact a.stagingSlot a.buffered).complete d) rfl
      refine method_bind (method_tryRequest (.writeVersion h₁ ?_) ?_ ?_)
      · simp [Req.complete]
      · refine method_setState (.staged (hkeep _ rfl) ?_) ?_ ?_
        · simp [Req.complete]
        · intro d' hj _
          exact .settled (.inr hj)
        · intro hq _
          exact .cut hq
      · intro _ t
        cases t <;> exact .settled (.inr h.journaled)
    · intro _ t
      cases t <;> exact .settled (.inr h.journaled)
  · intro _ t
    cases t <;> exact .settled (.inr h.journaled)

/-- The rejecting tail of `verify`: the reason, then `Failed`, then the error. -/
theorem reject_follows {manifest : OtaManifest} {a : OtaManager} {d : Disk} {why : String}
    {e : OtaError} (hj : Journaled a d) (hs : a.state = .verifying) :
    MethodFollows device mf (Micro crypto key (.verify manifest) w₀)
      (do
        modify fun m => { m with lastError := some why }
        setState .failed
        throw e)
      (Ends key mf (.verify manifest) w₀ fun _ : Unit => .unit) a (some a) d := by
  refine method_bind (x := modify _) (method_bind (method_setState (.rejected hj hs) ?_ ?_))
  · intro d' hj' _
    exact .settled (.inr hj')
  · intro hq _
    exact .cut hq

theorem verify_follows {manifest : OtaManifest} {a : OtaManager} {d : Disk} (h : Entry w₀ a d) :
    MethodFollows device mf (Micro crypto key (.verify manifest) w₀) (verify crypto manifest)
      (Ends key mf (.verify manifest) w₀ fun _ => .unit) a (some a) d := by
  refine method_get ?_
  show MethodFollows device mf _ (if a.state ≠ .downloading then _ else _) _ a (some a) d
  by_cases hs : a.state = .downloading
  swap
  · rw [if_pos hs]
    exact .settled (.inl h)
  rw [if_neg (not_not.mpr hs)]
  refine method_bind (method_setState (.verifying h hs) ?_ (fun hq _ => .cut hq))
  intro d' hj hslots
  show MethodFollows device mf _ (if hexEncode (crypto.sha256 a.buffered) ≠ _ then _ else _) _ _ _ d'
  by_cases hhash : hexEncode (crypto.sha256 a.buffered) =
      toLowercase manifest.artifactSha256Hex.toList
  swap
  · rw [if_pos hhash]
    exact reject_follows hj rfl
  rw [if_neg (not_not.mpr hhash)]
  -- hex, length, key and signature: three exits leave `Verifying` behind, one records `Failed`
  cases hsig : checkSignature crypto a.verifyingKey a.buffered manifest with
  | error e =>
      exact .settled (.inr hj)
  | ok accepted =>
      cases accepted with
      | false => exact reject_follows hj rfl
      | true =>
          exact stage_follows
            { call := rfl, entry := ⟨a, h.mem, hs, rfl⟩, journaled := hj, hash := hhash, accepted := hsig }

theorem markRebootPending_follows {a : OtaManager} {d : Disk} (h : Entry w₀ a d) :
    MethodFollows device mf (Micro crypto key .markRebootPending w₀) markRebootPending
      (Ends key mf .markRebootPending w₀ fun _ => .unit) a (some a) d := by
  refine method_get ?_
  show MethodFollows device mf _ (if a.state ≠ .staged then _ else _) _ a (some a) d
  by_cases hs : a.state = .staged
  · rw [if_neg (not_not.mpr hs)]
    exact method_setState (.rebootPending h hs) (fun _ hj _ => .settled (.inr hj))
      (fun hq _ => .cut hq)
  · rw [if_pos hs]
    exact .settled (.inl h)

theorem simulateReboot_follows {a : OtaManager} {d : Disk} (h : Entry w₀ a d) :
    MethodFollows device mf (Micro crypto key .simulateReboot w₀) simulateReboot
      (Ends key mf .simulateReboot w₀ fun _ => .unit) a (some a) d := by
  refine method_get ?_
  show MethodFollows device mf _ (if a.state ≠ .rebootPending then _ else _) _ a (some a) d
  by_cases hs : a.state = .rebootPending
  · rw [if_neg (not_not.mpr hs)]
    refine method_bind (method_setState (.booting h hs) ?_ (fun hq _ => .cut hq))
    intro d' hj _
    exact method_setState (.checking hj rfl) (fun _ hj' _ => .settled (.inr hj'))
      (fun hq _ => .cut hq)
  · rw [if_pos hs]
    exact .settled (.inl h)

/-- The body of `rollback`, from whichever call it runs in. -/
theorem dropCandidate_follows {reply : Unit → Reply} {a : OtaManager} {d : Disk}
    (h : Assign crypto w₀ c a d a.rolledBack) :
    MethodFollows device mf (Micro crypto key c w₀)
      (do
        modify fun m =>
          { m with candidateSlot := none, candidateVersion := none, candidateBytes := none }
        setState .rolledBack)
      (Ends key mf c w₀ reply) a (some a) d :=
  method_bind (x := modify _) (method_setState h (fun _ hj _ => .settled (.inr hj))
    (fun hq _ => .cut hq))

theorem rollback_follows {a : OtaManager} {d : Disk} (h : Entry w₀ a d) :
    MethodFollows device mf (Micro crypto key .rollback w₀) rollback
      (Ends key mf .rollback w₀ fun _ => .unit) a (some a) d := by
  refine method_get ?_
  show MethodFollows device mf _ (if ¬ (a.state = .rollbackPending ∨ a.state = .healthChecking ∨
    a.state = .failed) then _ else _) _ a (some a) d
  by_cases hs : a.state = .rollbackPending ∨ a.state = .healthChecking ∨ a.state = .failed
  · rw [if_neg (not_not.mpr hs)]
    exact dropCandidate_follows (.rollback h hs)
  · rw [if_pos hs]
    exact .settled (.inl h)

theorem healthCheck_follows {healthy : Bool} {detail : String} {a : OtaManager} {d : Disk}
    (h : Entry w₀ a d) :
    MethodFollows device mf (Micro crypto key (.healthCheck healthy detail) w₀) (healthCheck healthy detail)
      (Ends key mf (.healthCheck healthy detail) w₀ fun _ => .unit) a (some a) d := by
  refine method_get ?_
  show MethodFollows device mf _ (if a.state ≠ .healthChecking then _ else _) _ a (some a) d
  by_cases hs : a.state = .healthChecking
  swap
  · rw [if_pos hs]
    exact .settled (.inl h)
  rw [if_neg (not_not.mpr hs)]
  cases healthy with
  | true =>
      exact method_bind (x := modify _) (method_setState (.commit h hs)
        (fun _ hj _ => .settled (.inr hj)) (fun hq _ => .cut hq))
  | false =>
      refine method_bind (x := modify _) (method_bind (method_setState (.unhealthy h hs) ?_
        (fun hq _ => .cut hq)))
      intro d' hj _
      exact dropCandidate_follows (.autoRollback hj rfl)

theorem recover_follows {a : OtaManager} {d : Disk} (h : Entry w₀ a d) :
    MethodFollows device mf (Micro crypto key .recover w₀) recover
      (Ends key mf .recover w₀ .state) a (some a) d := by
  have hidle : a.state = .downloading ∨ a.state = .verifying →
      MethodFollows device mf (Micro crypto key .recover w₀)
        (do
          modify fun m => { m with candidateBytes := none }
          setState .idle
          return (← get).state)
        (Ends key mf .recover w₀ .state) a (some a) d := by
    intro hs
    exact method_bind (x := modify _) (method_bind (method_setState (.restart h hs)
      (fun _ hj _ => .settled (.inr hj)) (fun hq _ => .cut hq)))
  have hcheck : a.state = .rebootPending ∨ a.state = .bootingCandidate ∨ a.state = .healthChecking →
      MethodFollows device mf (Micro crypto key .recover w₀)
        (do setState .healthChecking; return (← get).state)
        (Ends key mf .recover w₀ .state) a (some a) d := by
    intro hs
    exact method_bind (method_setState (.recheck h hs) (fun _ hj _ => .settled (.inr hj))
      (fun hq _ => .cut hq))
  -- the `match` on the state, once the state is a constructor
  obtain ⟨s, _, _, _, _, _, _, _⟩ := a
  cases s with
  | downloading => exact method_get (hidle (.inl rfl))
  | verifying => exact method_get (hidle (.inr rfl))
  | rebootPending => exact method_get (hcheck (.inl rfl))
  | bootingCandidate => exact method_get (hcheck (.inr (.inl rfl)))
  | healthChecking => exact method_get (hcheck (.inr (.inr rfl)))
  | _ => exact method_get (.settled (.inl h))

theorem openManager_follows {prev : Option OtaManager} {d : Disk} :
    (openManager key d.journal).Follows device mf (Micro crypto key .open w₀)
      (fun p d' r =>
        match r with
        | .ok m => Return key mf .open w₀ p d' (.ok .unit, some m)
        | .error e => Return key mf .open w₀ p d' (.error e, none)) prev d := by
  refine ⟨.createDir rfl, ?_, fun _ _ => .openFailed rfl⟩
  cases hj : d.journal with
  | some file =>
      refine ⟨.readJournal rfl, ?_, fun _ _ => .openFailed rfl⟩
      cases file with
      | garbled => exact .openFailed rfl
      | whole p => exact .opened rfl hj
  | none =>
      refine Prog.follows_bind.mpr (method_persist (.writeInitial rfl hj) ?_ ?_ ?_)
      · intro d' hj' _ ht
        exact .renameInitial rfl (hj'.trans hj) ht
      · intro d' hj' _
        exact .openedFresh rfl hj'
      · intro _ d' _ _
        exact .openFailed rfl

theorem onManager_follows {α : Type} {x : OtaM α} {reply : α → Reply}
    (h : ∀ a, w₀.mem = some a → MethodFollows device mf (Micro crypto key c w₀) x
      (Ends key mf c w₀ reply) a (some a) w₀.disk) :
    (onManager x reply w₀).Follows device mf (Micro crypto key c w₀) (Return key mf c w₀)
      w₀.mem w₀.disk := by
  unfold onManager
  cases hm : w₀.mem with
  | none => exact .noManager hm
  | some a => exact Prog.follows_bind.mpr (h a hm)

/-- **Every OTA call does only what `Micro` and `Return` list**, whatever the device answers. -/
theorem ota_follows (crypto : Crypto) (key : Bytes) (mf : Req → Prop) (c : Call) (w : OtaWorld) :
    ((ota crypto key).prog c w).Follows (ota crypto key).dev mf (Micro crypto key c w)
      (Return key mf c w) w.mem w.disk := by
  have hentry : ∀ a, w.mem = some a → Entry w a w.disk := fun a ha => ⟨ha, rfl, rfl⟩
  cases c with
  | «open» =>
      refine Prog.follows_bind.mpr (openManager_follows.mono ?_)
      rintro p d' (e | m) h
      · exact h
      · exact h
  | startDownload manifest => exact onManager_follows fun a ha => startDownload_follows (hentry a ha)
  | ingestChunk chunk manifest => exact onManager_follows fun a ha => ingestChunk_follows (hentry a ha)
  | verify manifest => exact onManager_follows fun a ha => verify_follows (hentry a ha)
  | markRebootPending => exact onManager_follows fun a ha => markRebootPending_follows (hentry a ha)
  | simulateReboot => exact onManager_follows fun a ha => simulateReboot_follows (hentry a ha)
  | healthCheck healthy detail =>
      exact onManager_follows fun a ha => healthCheck_follows (hentry a ha)
  | rollback => exact onManager_follows fun a ha => rollback_follows (hentry a ha)
  | recover => exact onManager_follows fun a ha => recover_follows (hentry a ha)
  | kill => exact .killed rfl

end Calls

end Edgewarden.Ota
