/-
# Edgewarden.Ota.Admission — what `start_download` lets in, and what a rejected artifact leaves.

The busy checks of `start_download` stand under `if let Some(v) = &self.candidate_version`: a manager that
is busy without a candidate would be let through. There is none. `claimedRule` is the invariant, kept by
every assignment and every failed write, and `start_download_admits` reads the answer off the state.

`verify` has five ways to reject. Two of them record `Failed`, from which `start_download` begins again; a
signature that is no hex, or not 64 bytes long, and a key that does not decode return with `?` and leave
`Verifying` behind, in memory and in the journal. `docs/ota.md` has "mismatch or wrong-key artifacts →
`Failed`".

* `rejected_artifact_fails_iff` is the exact condition on manifest and key.
* `malformed_signature_blocks` is a manifest that does not meet it: the device is busy until `recover`.
-/
import Edgewarden.Ota.Binding
import Edgewarden.Ota.Resume

namespace Edgewarden.Ota

open Edgewarden.FaultIo Edgewarden.Text

/-! ## §1 Journal writes, whatever the device answers. -/

section Persist

variable {m : OtaManager} {d : Disk}

/-- `persist` succeeds or returns the I/O error, and leaves the slots. -/
theorem always_persist {E : Disk → Except OtaError Unit × OtaManager → Prop}
    (hok : ∀ d', d'.slots = d.slots → E d' (.ok (), m))
    (hio : ∀ d', d'.slots = d.slots → E d' (.error .io, m)) : MethodAlways device persist E m d := by
  have hslots : ∀ {q : Req} {d' : Disk} (f : Fault Tear), q.slot = none → d'.slots = d.slots →
      (device.after q d' f).slots = d.slots :=
    fun _ hq h => (after_slots hq).trans h
  refine method_always_get (method_always_requestOr ?_ fun t => hio _ (hslots (.fail t) rfl rfl))
  refine method_always_request fun f => ?_
  have hsync : (device.after .syncTmp (device.after (.writeTmp m.record) d .ok) f).slots = d.slots :=
    hslots f rfl (hslots .ok rfl rfl)
  refine method_always_requestOr ?_ fun t => hio _ (hslots (.fail t) rfl hsync)
  exact method_always_request fun f' _ => hok _ (hslots f' rfl (hslots .ok rfl hsync))

theorem always_setState {s : OtaState} {E : Disk → Except OtaError Unit × OtaManager → Prop}
    (hok : ∀ d', d'.slots = d.slots → E d' (.ok (), { m with state := s }))
    (hio : ∀ d', d'.slots = d.slots → E d' (.error .io, { m with state := s })) :
    MethodAlways device (setState s) E m d :=
  method_always_modify (always_persist hok hio)

end Persist

/-! ## §2 `start_download`. -/

/-- The seven states of an update under way. -/
def OtaState.busy : OtaState → Bool
  | .downloading | .verifying | .staged | .rebootPending | .bootingCandidate | .healthChecking
  | .rollbackPending => true
  | _ => false

theorem OtaState.resting_eq (s : OtaState) : s.resting = !s.busy := by cases s <;> rfl

/-- A busy record has a candidate: a slot, and a version. -/
structure Claimed (_ : Slot → SlotDir) (p : PersistedOta) : Prop where
  candidate : p.state.resting = false → p.candidateSlot = some p.activeSlot.other
  version : p.state.resting = false → ∃ v, p.candidateVersion = some v

theorem claimedRule (crypto : Crypto) (key : Bytes) : RecordRule crypto key (fun _ => True) Claimed where
  initial _ := ⟨nofun, nofun⟩
  assign _ h ha := by
    refine ⟨h.candidate ha.candidate, ?_⟩
    intro hb
    rcases h.busy_version hb with ⟨manifest, _, hv, _⟩ | ⟨_, hbusy, hv, _⟩
    · exact ⟨manifest.version, hv⟩
    · obtain ⟨v, hv'⟩ := ha.version hbusy
      exact ⟨v, hv.trans hv'⟩
  candidate h := h.candidate
  staging h _ _ := ⟨h.candidate, h.version⟩

/-- **Busy means a candidate**, in memory and in the journal, after every run. -/
theorem claimed_after (crypto : Crypto) (key : Bytes) (slots : Slot → SlotDir) (sched : Schedule) :
    RecordsOk Claimed ((ota crypto key).run sched (factory slots)).2 :=
  ((claimedRule crypto key).run slots sched fun _ _ => trivial).2

section Start

variable {crypto : Crypto} {key : Bytes} {m : OtaManager} {d : Disk} {manifest : OtaManifest}

/-- The error for another version. -/
def OtaManager.busyError (m : OtaManager) (manifest : OtaManifest) : OtaError :=
  .other ("busy in " ++ m.state.debug ++ ", cannot start " ++ manifest.version)

theorem startGate_duplicate (hb : m.state.busy = true) (hv : m.candidateVersion = some manifest.version) :
    m.startGate manifest = .ok false := by
  simp [OtaManager.startGate, hv, m.state.resting_eq, hb]

theorem startGate_busy {v : String} (hb : m.state.busy = true) (hv : m.candidateVersion = some v)
    (hne : v ≠ manifest.version) : m.startGate manifest = .error (m.busyError manifest) := by
  simp [OtaManager.startGate, hv, m.state.resting_eq, hb, hne, OtaManager.busyError]

theorem startGate_resting (hb : m.state.busy = false) : m.startGate manifest = m.downgradeGate manifest := by
  cases hv : m.candidateVersion with
  | none => simp [OtaManager.startGate, hv]
  | some v => simp [OtaManager.startGate, hv, m.state.resting_eq, hb]

theorem downgradeGate_refuses {h : String} (hh : m.highestCommittedVersion = some h)
    (hle : compareVersions manifest.version h ≠ .gt) :
    m.downgradeGate manifest = .error (.downgradeRejected manifest.version h) := by
  simp [OtaManager.downgradeGate, hh, hle]

theorem downgradeGate_admits
    (h : ∀ w, m.highestCommittedVersion = some w → compareVersions manifest.version w = .gt) :
    m.downgradeGate manifest = .ok true := by
  cases hh : m.highestCommittedVersion with
  | none => simp [OtaManager.downgradeGate, hh]
  | some w => simp [OtaManager.downgradeGate, hh, h w hh]

/-- Past the gate the fields are assigned, whether or not the journal follows. -/
theorem always_startDownload (h : m.startGate manifest = .ok true) :
    MethodAlways device (startDownload manifest)
      (fun _ r => (r.1 = .ok true ∨ r.1 = .error .io) ∧ r.2 = m.begun manifest.version) m d := by
  refine method_always_get ?_
  rw [h]
  refine method_always_modify (method_always_bind (always_setState ?_ ?_))
  · intro _ _ _
    exact ⟨.inl rfl, rfl⟩
  · intro _ _
    exact ⟨.inr rfl, rfl⟩

/-- How a `start_download` that passes the gate can end. -/
inductive StartEnds (m : OtaManager) (v : String) : List (Except OtaError Reply) → Option OtaManager → Prop
  | died : StartEnds m v [] none
  | started : StartEnds m v [.ok (.started true)] (some (m.begun v))
  | cut : StartEnds m v [.error .io] (some (m.begun v))

/-- The answer of one call under a list of faults, and the world it leaves. -/
def oneCall (crypto : Crypto) (key : Bytes) (w : OtaWorld) (c : Call) (fs : List (Fault Tear)) :
    List (Except OtaError Reply) × OtaWorld :=
  (replies ((ota crypto key).run [(c, fs)] w).1, ((ota crypto key).run [(c, fs)] w).2)

theorem oneCall_eq (crypto : Crypto) (key : Bytes) (w : OtaWorld) (c : Call) (fs : List (Fault Tear)) :
    oneCall crypto key w c fs =
      (((callProg crypto key c w).exec device none w.mem fs w.disk).1.filterMap Event.reply,
        ((callProg crypto key c w).exec device none w.mem fs w.disk).2) := by
  have hrun : (ota crypto key).run [(c, fs)] w =
      (((callProg crypto key c w).exec device none w.mem fs w.disk).1.map (Step.mk c w) ++ [],
        ((callProg crypto key c w).exec device none w.mem fs w.disk).2) := rfl
  rw [oneCall, hrun, List.append_nil, replies_call]

/-- The gate stops the call before it does anything ... -/
theorem startDownload_stopped (crypto : Crypto) (key : Bytes) {r : Except OtaError Bool}
    (h : m.startGate manifest = r) (hr : r ≠ .ok true) (fs : List (Fault Tear)) :
    oneCall crypto key ⟨some m, d⟩ (.startDownload manifest) fs = ([r.map .started], ⟨some m, d⟩) := by
  have hprog : callProg crypto key (.startDownload manifest) ⟨some m, d⟩ =
      .done (r.map .started, some m) := by
    show onManager (startDownload manifest) .started ⟨some m, d⟩ = _
    have hrun : (startDownload manifest).run.run m = .done (r, m) := by
      have hget : (get : OtaM OtaManager).run.run m = .done (.ok m, m) := rfl
      unfold startDownload
      rw [Method.run_bind, hget, Prog.done_bind]
      simp only [h]
      rcases r with e | _ | _
      · rfl
      · rfl
      · exact absurd rfl hr
    simp only [onManager, hrun]
    rfl
  rw [oneCall_eq, hprog]
  rfl

/-- ... or lets it begin. -/
theorem startDownload_begins (crypto : Crypto) (key : Bytes) (h : m.startGate manifest = .ok true)
    (fs : List (Fault Tear)) :
    StartEnds m manifest.version (oneCall crypto key ⟨some m, d⟩ (.startDownload manifest) fs).1
      (oneCall crypto key ⟨some m, d⟩ (.startDownload manifest) fs).2.mem := by
  have hfollows : (callProg crypto key (.startDownload manifest) ⟨some m, d⟩).Follows device (fun _ => True)
      (fun _ _ _ _ => True)
      (fun _ _ b => (b.1 = .ok (.started true) ∨ b.1 = .error .io) ∧ b.2 = some (m.begun manifest.version))
      (some m) d := by
    refine Prog.follows_bind.mpr (Prog.Follows.mono (always_startDownload h (some m)) ?_)
    rintro _ _ ⟨r, m'⟩ ⟨hr, rfl⟩
    refine ⟨?_, rfl⟩
    rcases hr with rfl | rfl
    · exact .inl rfl
    · exact .inr rfl
  rw [oneCall_eq]
  rcases hfollows.outcome none fs with ⟨_, _, _, _, _, _, hworld, hreplies⟩ |
      ⟨_, _, b, m', ⟨hb, hm⟩, hworld, hreplies⟩
  · rw [hworld, hreplies]
    exact .died
  · rw [hworld, hreplies]
    simp only at hb hm
    rw [hm]
    rcases hb with rfl | rfl
    · exact .started
    · exact .cut

/-- Busy with this version: a duplicate command. -/
def OtaManager.Duplicates (m : OtaManager) (manifest : OtaManifest) : Prop :=
  m.state.busy = true ∧ m.candidateVersion = some manifest.version

/-- Busy with another version. -/
def OtaManager.Occupied (m : OtaManager) (manifest : OtaManifest) : Prop :=
  m.state.busy = true ∧ ∃ v, m.candidateVersion = some v ∧ v ≠ manifest.version

/-- Not busy, and the version is not above the committed one. -/
def OtaManager.Downgrades (m : OtaManager) (manifest : OtaManifest) (committed : String) : Prop :=
  m.state.busy = false ∧ m.highestCommittedVersion = some committed ∧
    compareVersions manifest.version committed ≠ .gt

/-- The gate in these terms. -/
inductive Gate (m : OtaManager) (manifest : OtaManifest) : Except OtaError Bool → Prop
  | duplicate : m.Duplicates manifest → Gate m manifest (.ok false)
  | occupied : m.Occupied manifest → Gate m manifest (.error (m.busyError manifest))
  | downgrade {committed : String} : m.Downgrades manifest committed →
      Gate m manifest (.error (.downgradeRejected manifest.version committed))
  | admitted : ¬ m.Duplicates manifest → ¬ m.Occupied manifest → (∀ h, ¬ m.Downgrades manifest h) →
      Gate m manifest (.ok true)

/-- **The gate of a manager whose busy states have a candidate.** -/
theorem startGate_gate (h : Claimed d.slots m.record) (manifest : OtaManifest) :
    Gate m manifest (m.startGate manifest) := by
  cases hb : m.state.busy with
  | true =>
      have hbusy : m.state.resting = false := by rw [m.state.resting_eq, hb]; rfl
      obtain ⟨v, hv⟩ := h.version hbusy
      by_cases heq : v = manifest.version
      · rw [startGate_duplicate hb (hv.trans (congrArg some heq))]
        exact .duplicate ⟨hb, hv.trans (congrArg some heq)⟩
      · rw [startGate_busy hb hv heq]
        exact .occupied ⟨hb, v, hv, heq⟩
  | false =>
      rw [startGate_resting hb]
      by_cases hdown : ∃ w, m.highestCommittedVersion = some w ∧ compareVersions manifest.version w ≠ .gt
      · obtain ⟨w, hw, hle⟩ := hdown
        rw [downgradeGate_refuses hw hle]
        exact .downgrade ⟨hb, hw, hle⟩
      · rw [downgradeGate_admits fun w hw => by_contra fun hle => hdown ⟨w, hw, hle⟩]
        refine .admitted ?_ ?_ ?_
        · rintro ⟨hbusy, -⟩
          rw [hb] at hbusy
          cases hbusy
        · rintro ⟨hbusy, -⟩
          rw [hb] at hbusy
          cases hbusy
        · rintro w ⟨-, hw, hle⟩
          exact hdown ⟨w, hw, hle⟩

/-- What `start_download` answers on `m` in world `w`, and when it leaves the world as it is. -/
structure StartAnswers (w : OtaWorld) (m : OtaManager) (manifest : OtaManifest)
    (bs : List (Except OtaError Reply)) (w' : OtaWorld) : Prop where
  duplicate : bs = [.ok (.started false)] ↔ m.Duplicates manifest
  occupied : bs = [.error (m.busyError manifest)] ↔ m.Occupied manifest
  downgrade : ∀ committed, bs = [.error (.downgradeRejected manifest.version committed)] ↔
    m.Downgrades manifest committed
  unchanged : m.Duplicates manifest ∨ m.Occupied manifest ∨ (∃ h, m.Downgrades manifest h) → w' = w
  /-- Otherwise it succeeds, fails in the journal, or does not return. -/
  admitted : ¬ m.Duplicates manifest → ¬ m.Occupied manifest → (∀ h, ¬ m.Downgrades manifest h) →
    StartEnds m manifest.version bs w'.mem

/-- The four cases exclude each other, so each answer is given in its own case only. -/
theorem startAnswers_of_gate (crypto : Crypto) (key : Bytes) (h : Gate m manifest (m.startGate manifest))
    (fs : List (Fault Tear)) :
    StartAnswers ⟨some m, d⟩ m manifest
      (oneCall crypto key ⟨some m, d⟩ (.startDownload manifest) fs).1
      (oneCall crypto key ⟨some m, d⟩ (.startDownload manifest) fs).2 := by
  have hbusy : ∀ committed, m.state.busy = true → ¬ m.Downgrades manifest committed := by
    rintro _ hb ⟨hb', -⟩
    rw [hb] at hb'
    cases hb'
  have hdup : m.Duplicates manifest → ¬ m.Occupied manifest := by
    rintro ⟨-, hv⟩ ⟨-, v, hv', hne⟩
    exact hne (Option.some.inj (hv'.symm.trans hv))
  generalize hgate : m.startGate manifest = r at h
  cases h with
  | duplicate hc =>
      rw [startDownload_stopped crypto key hgate (by decide) fs]
      refine ⟨iff_of_true rfl hc, iff_of_false nofun (hdup hc), fun w => iff_of_false nofun (hbusy w hc.1),
        fun _ => rfl, ?_⟩
      intro hn
      exact absurd hc hn
  | occupied hc =>
      rw [startDownload_stopped crypto key hgate nofun fs]
      refine ⟨iff_of_false nofun fun hn => hdup hn hc, iff_of_true rfl hc,
        fun w => iff_of_false nofun (hbusy w hc.1), fun _ => rfl, ?_⟩
      intro _ hn
      exact absurd hc hn
  | @downgrade committed hc =>
      rw [startDownload_stopped crypto key hgate nofun fs]
      refine ⟨iff_of_false nofun fun hn => hbusy _ hn.1 hc, iff_of_false nofun fun hn => hbusy _ hn.1 hc, ?_,
        fun _ => rfl, ?_⟩
      · intro w
        constructor
        · rintro ⟨⟩
          exact hc
        · intro hw
          have heq : w = committed := Option.some.inj (hw.2.1.symm.trans hc.2.1)
          rw [heq]
          rfl
      · intro _ _ hn
        exact absurd hc (hn committed)
  | admitted hndup hnocc hndown =>
      have hends := startDownload_begins (d := d) crypto key hgate fs
      generalize hcall : oneCall crypto key ⟨some m, d⟩ (.startDownload manifest) fs = result at hends ⊢
      obtain ⟨bs, w'⟩ := result
      refine ⟨iff_of_false ?_ hndup, iff_of_false ?_ hnocc, fun w => iff_of_false ?_ (hndown w), ?_,
        fun _ _ _ => hends⟩
      · rintro rfl
        cases hends
      · rintro rfl
        cases hends
      · rintro rfl
        cases hends
      · rintro (hn | hn | ⟨w, hn⟩)
        · exact absurd hn hndup
        · exact absurd hn hnocc
        · exact absurd hn (hndown w)

/-- **Admission.** For every manager after every run, whatever failed and wherever the process died on the
way, every manifest and every list of faults: `start_download` answers `Ok(false)` if and only if it is busy
with this version, the busy error if and only if it is busy with another one, `DowngradeRejected` if and only
if it is not busy and the version is not above the committed one; in these cases nothing changes, on disk or
in memory; in all others the answer is `Ok(true)` or a journal error, and it is `Ok(true)` if nothing fails. -/
theorem start_download_admits (crypto : Crypto) (key : Bytes) (slots : Slot → SlotDir) (sched : Schedule)
    (m : OtaManager) (hm : ((ota crypto key).run sched (factory slots)).2.mem = some m) (manifest : OtaManifest)
    (fs : List (Fault Tear)) :
    let w := ((ota crypto key).run sched (factory slots)).2
    StartAnswers w m manifest (oneCall crypto key w (.startDownload manifest) fs).1
        (oneCall crypto key w (.startDownload manifest) fs).2 ∧
      (¬ m.Duplicates manifest → ¬ m.Occupied manifest → (∀ h, ¬ m.Downgrades manifest h) →
        (oneCall crypto key w (.startDownload manifest) []).1 = [.ok (.started true)]) := by
  intro w
  have hclaimed : Claimed w.disk.slots m.record := (claimed_after crypto key slots sched).memory m hm
  have hw : w = ⟨some m, w.disk⟩ := by rw [← hm]
  have hgate := startGate_gate hclaimed manifest
  rw [hw]
  refine ⟨startAnswers_of_gate crypto key hgate fs, ?_⟩
  intro hndup hnocc hndown
  generalize hg : m.startGate manifest = r at hgate
  cases hgate with
  | duplicate hc => exact absurd hc hndup
  | occupied hc => exact absurd hc hnocc
  | downgrade hc => exact absurd hc (hndown _)
  | admitted _ _ _ =>
      rw [oneCall_eq, Prog.exec_nil_reply]
      exact congrArg (fun r => [r.1.1]) (quiet_onManager (quiet_startDownload hg))

end Start

/-- A download of version `1.0.0` that has begun. -/
def downloadBegun : Schedule :=
  [(.open, []), (.startDownload (signedManifest tabulated releaseSign [1] "1.0.0"), [])]

def begunManager : OtaManager := (OtaManager.initial releaseKey).begun "1.0.0"

/-- The same command again, on a disk that would fail. -/
theorem start_download_redelivered :
    ((ota tabulated releaseKey).run downloadBegun (factory emptySlots)).2.mem = some begunManager ∧
      begunManager.Duplicates (signedManifest tabulated releaseSign [1] "1.0.0") ∧
      (oneCall tabulated releaseKey ((ota tabulated releaseKey).run downloadBegun (factory emptySlots)).2
        (.startDownload (signedManifest tabulated releaseSign [1] "1.0.0")) [.fail .untouched]).1 =
        [.ok (.started false)] := by
  have hmem : ((ota tabulated releaseKey).run downloadBegun (factory emptySlots)).2.mem = some begunManager := by
    decide +kernel
  have hdup : begunManager.Duplicates (signedManifest tabulated releaseSign [1] "1.0.0") := ⟨rfl, rfl⟩
  exact ⟨hmem, hdup, (start_download_admits tabulated releaseKey emptySlots downloadBegun begunManager hmem
    (signedManifest tabulated releaseSign [1] "1.0.0") [.fail .untouched]).1.duplicate.mpr hdup⟩

/-! ## §3 Rejected artifacts. -/

section Rejected

variable {crypto : Crypto} {m : OtaManager} {d : Disk} {manifest : OtaManifest}

/-- The fields after `verify` recorded `Failed`. -/
def OtaManager.failing (m : OtaManager) (why : String) : OtaManager :=
  { m with state := .failed, lastError := some why }

/-- A malformed signature leaves `Verifying`. -/
theorem quiet_verify_malformed (hs : m.state = .downloading)
    (hhash : hexEncode (crypto.sha256 m.buffered) = toLowercase manifest.artifactSha256Hex.toList)
    {e : OtaError} (hsig : checkSignature crypto m.verifyingKey m.buffered manifest = .error e) :
    Method.quiet device (verify crypto manifest) m d =
      ((.error e, { m with state := .verifying }), d.journaling { m with state := .verifying }.record) := by
  rw [quiet_verify_eq crypto manifest d hs, if_neg (not_not.mpr hhash), hsig]

/-- The three errors of a rejected artifact. -/
def OtaError.rejects : OtaError → Bool
  | .hashMismatch _ _ | .badSignature | .badKey _ => true
  | _ => false

/-- The signature is the hex of 64 bytes, and the key is one. -/
def WellFormed (crypto : Crypto) (key : Bytes) (manifest : OtaManifest) : Prop :=
  (∃ sig, hexDecode (trim manifest.signatureHex.toList) = some sig ∧ sig.length = 64) ∧
    ∃ vk, crypto.keyFromBytes key = .ok vk

theorem checkSignature_wellFormed {key : Bytes} (bytes : Bytes) (h : WellFormed crypto key manifest) :
    ∃ accepted, checkSignature crypto key bytes manifest = .ok accepted := by
  obtain ⟨⟨sig, hsig, hlen⟩, vk, hvk⟩ := h
  refine ⟨crypto.verify vk bytes sig, ?_⟩
  simp [checkSignature, hsig, hlen, hvk]

theorem checkSignature_malformed {key : Bytes} (bytes : Bytes) (h : ¬ WellFormed crypto key manifest) :
    ∃ e : OtaError, checkSignature crypto key bytes manifest = .error e ∧ e.rejects = true := by
  unfold checkSignature
  cases hsig : hexDecode (trim manifest.signatureHex.toList) with
  | none => exact ⟨.badSignature, rfl, rfl⟩
  | some sig =>
      by_cases hlen : sig.length = 64
      · cases hkey : crypto.keyFromBytes key with
        | error e => exact ⟨.badKey e, by simp [hlen], rfl⟩
        | ok vk => exact absurd ⟨⟨sig, hsig, hlen⟩, vk, hkey⟩ h
      · exact ⟨.badSignature, by simp [hlen], rfl⟩

/-- From `m` on `d` to `m'` on `d'`: `Failed`, with everything else as it was and ready for another
artifact. -/
structure EndsFailed (m : OtaManager) (d : Disk) (m' : OtaManager) (d' : Disk) : Prop where
  memory : m'.state = .failed
  journal : ∃ p, d'.journal = some (.whole p) ∧ p.state = .failed ∧ p.activeSlot = m.activeSlot ∧
    p.highestCommittedVersion = m.highestCommittedVersion
  activeSlot : m'.activeSlot = m.activeSlot
  highest : m'.highestCommittedVersion = m.highestCommittedVersion
  slots : d'.slots = d.slots
  restarts : ∀ next : OtaManifest,
    (∀ h, m.highestCommittedVersion = some h → compareVersions next.version h = .gt) →
      (Method.quiet device (startDownload next) m' d').1.1 = .ok true

theorem endsFailed (m : OtaManager) (d : Disk) (why : String) :
    EndsFailed m d (m.failing why) (d.journaling (m.failing why).record) where
  memory := rfl
  journal := ⟨_, rfl, rfl, rfl, rfl⟩
  activeSlot := rfl
  highest := rfl
  slots := rfl
  restarts next hnext := by
    have hgate : (m.failing why).startGate next = .ok true :=
      (startGate_resting rfl).trans (downgradeGate_admits hnext)
    rw [quiet_startDownload hgate]

/-- Without an I/O failure, a rejection by `verify` ends in `Failed`. -/
def RejectionFails (crypto : Crypto) (m : OtaManager) (d : Disk) (manifest : OtaManifest) : Prop :=
  ∀ e : OtaError, (Method.quiet device (verify crypto manifest) m d).1.1 = .error e → e.rejects = true →
    EndsFailed m d (Method.quiet device (verify crypto manifest) m d).1.2
      (Method.quiet device (verify crypto manifest) m d).2

/-- **When a rejected artifact ends in `Failed`.** For every manager in `Downloading`, on every disk, and
every manifest: a rejection records `Failed` and frees the manager if and only if the hash is not that of
the bytes, or the signature is the hex of 64 bytes and the key decodes. -/
theorem rejected_artifact_fails_iff (crypto : Crypto) (m : OtaManager) (d : Disk) (hs : m.state = .downloading)
    (manifest : OtaManifest) :
    RejectionFails crypto m d manifest ↔
      hexEncode (crypto.sha256 m.buffered) ≠ toLowercase manifest.artifactSha256Hex.toList ∨
        WellFormed crypto m.verifyingKey manifest := by
  constructor
  · intro hfails
    by_contra hcond
    obtain ⟨hhash, hmalformed⟩ := not_or.mp hcond
    obtain ⟨e, hsig, he⟩ := checkSignature_malformed m.buffered hmalformed
    have hquiet := quiet_verify_malformed (d := d) hs (not_not.mp hhash) hsig
    have hend := hfails e (by rw [hquiet]) he
    rw [hquiet] at hend
    cases hend.memory
  · intro hcond e herr _
    by_cases hhash : hexEncode (crypto.sha256 m.buffered) = toLowercase manifest.artifactSha256Hex.toList
    · obtain ⟨accepted, hsig⟩ := checkSignature_wellFormed m.buffered
        (hcond.resolve_left (not_not.mpr hhash))
      cases accepted with
      | true =>
          rw [quiet_verify hs hhash hsig] at herr
          cases herr
      | false =>
          rw [quiet_verify_eq crypto manifest d hs, if_neg (not_not.mpr hhash), hsig]
          exact endsFailed m d "bad signature"
    · rw [quiet_verify_eq crypto manifest d hs, if_pos hhash]
      exact endsFailed m d "hash mismatch"

end Rejected

/-- The manager with one byte downloaded. -/
def oneByteManager : OtaManager := { begunManager with candidateBytes := some [1] }

/-- The disk of that moment. -/
def oneByteDisk : Disk := (factory emptySlots).disk.journaling begunManager.record

theorem rejected_artifact_mismatch :
    oneByteManager.state = .downloading ∧
      RejectionFails tabulated oneByteManager oneByteDisk (signedManifest tabulated releaseSign [] "1.0.0") := by
  refine ⟨rfl, (rejected_artifact_fails_iff tabulated oneByteManager oneByteDisk rfl _).mpr (.inl ?_)⟩
  decide +kernel

/-- A manifest with the hash of the artifact and a signature that is no hex. -/
def noHexManifest : OtaManifest := { signedManifest tabulated releaseSign [1] "1.0.0" with signatureHex := "zz" }

/-- The manager is reached by three calls; `verify` returns `BadSignature` and leaves it in `Verifying`, in
memory and in the journal; the next version is refused as busy. -/
theorem malformed_signature_blocks :
    ((ota tabulated releaseKey).run
        (downloadBegun ++ [(.ingestChunk [1] noHexManifest, [])]) (factory emptySlots)).2 =
        ⟨some oneByteManager, oneByteDisk⟩ ∧
      (Method.quiet device (verify tabulated noHexManifest) oneByteManager oneByteDisk).1.1 = .error .badSignature ∧
      (Method.quiet device (verify tabulated noHexManifest) oneByteManager oneByteDisk).1.2.state = .verifying ∧
      (Method.quiet device (do
          let _ ← (verify tabulated noHexManifest).observed
          startDownload (signedManifest tabulated releaseSign [1] "2.0.0")) oneByteManager oneByteDisk).1.1 =
        .error (.other "busy in Verifying, cannot start 2.0.0") ∧
      ¬ RejectionFails tabulated oneByteManager oneByteDisk noHexManifest := by
  have hquiet : Method.quiet device (verify tabulated noHexManifest) oneByteManager oneByteDisk =
      ((.error .badSignature, { oneByteManager with state := .verifying }),
        oneByteDisk.journaling { oneByteManager with state := .verifying }.record) :=
    quiet_verify_malformed rfl (by decide +kernel) (by decide +kernel)
  refine ⟨rfl, by rw [hquiet], by rw [hquiet], ?_, ?_⟩
  · rw [Method.quiet_bind_ok (Method.quiet_observed hquiet)]
    rfl
  · intro hfails
    have hend := hfails .badSignature (by rw [hquiet]) rfl
    rw [hquiet] at hend
    cases hend.memory

end Edgewarden.Ota
