/-
# Edgewarden.Ota.Binding — the version file of a slot and the version the journal records.

The version of an update is written down twice: `start_download` puts the version of ITS manifest into
the journal as `candidate_version`, and `verify` puts the version of its own into the slot. Nothing
compares the two.

* §1 is a rule for properties of records: what every assignment keeps, and no staging write can break,
  holds of the manager's fields and of the journal at every moment of every run, whatever fails. It rests
  on the observation of `Ota.Slots`: a slot is written only while memory and journal hold the same
  `Verifying` record.
* `version_files_bound`: while each accepted `verify` is given the version that `start_download` recorded,
  the version file of a bootable candidate names `candidate_version`, and that of a committed slot names
  `highest_committed_version`. `verify_writes_its_own_version` is a run in which one is not.
-/
import Edgewarden.Ota.Commit

namespace Edgewarden.Ota

open Edgewarden.FaultIo Edgewarden.Text

/-! ## §1 Properties of records. -/

/-- A property of records that every assignment keeps. A record that is being staged may lose the
contents of the slot that is not active. -/
structure RecordRule (crypto : Crypto) (key : Bytes) (adm : OtaStep → Prop)
    (Ok : (Slot → SlotDir) → PersistedOta → Prop) : Prop where
  initial : ∀ slots, Ok slots (OtaManager.initial key).record
  assign : ∀ {c w₀ e a d b}, adm ⟨c, w₀, e⟩ → Assign crypto w₀ c a d b → Ok d.slots a.record →
    Ok d.slots b.record
  candidate : ∀ {slots p}, Ok slots p → p.state.resting = false →
    p.candidateSlot = some p.activeSlot.other
  staging : ∀ {slots slots' p}, Ok slots p → p.state = .verifying →
    slots' p.activeSlot = slots p.activeSlot → Ok slots' p

/-- The manager's fields, if there is a manager, and the journal have the property. -/
structure RecordsOk (Ok : (Slot → SlotDir) → PersistedOta → Prop) (w : OtaWorld) : Prop where
  memory : ∀ a, w.mem = some a → Ok w.disk.slots a.record
  journal : ∀ p, w.disk.journal = some (.whole p) → Ok w.disk.slots p

section Rule

variable {crypto : Crypto} {key : Bytes} {adm : OtaStep → Prop}
  {Ok : (Slot → SlotDir) → PersistedOta → Prop}

theorem RecordsOk.gone {m : Option OtaManager} {d : Disk} (h : RecordsOk Ok ⟨m, d⟩) :
    RecordsOk Ok ⟨none, d⟩ :=
  ⟨fun _ ha => (by cases ha), h.journal⟩

theorem RecordsOk.of_same {m : Option OtaManager} {d d' : Disk} (h : RecordsOk Ok ⟨m, d⟩)
    (hj : d'.journal = d.journal) (hs : d'.slots = d.slots) : RecordsOk Ok ⟨m, d'⟩ where
  memory a ha := by
    show Ok d'.slots a.record
    rw [hs]
    exact h.memory a ha
  journal p hp := by
    show Ok d'.slots p
    rw [hs]
    exact h.journal p (hj.symm.trans hp)

/-- The fields a request is issued with. -/
theorem RecordRule.at_request (rule : RecordRule crypto key adm Ok) {c : Call} {w₀ : OtaWorld}
    {m m' : Option OtaManager} {d : Disk} {q : Req} {f : Fault Tear} (h : RecordsOk Ok ⟨m, d⟩)
    (hadm : adm ⟨c, w₀, .io m m' q f d⟩) (hq : Micro crypto key c w₀ m d m' q) :
    RecordsOk Ok ⟨m', d⟩ := by
  cases hq with
  | createDir _ => exact h.gone
  | writeInitial _ _ =>
      refine ⟨?_, h.journal⟩
      rintro _ ⟨⟩
      exact rule.initial _
  | writeTmp hassign =>
      refine ⟨?_, h.journal⟩
      rintro _ ⟨⟩
      exact rule.assign hadm hassign (h.memory _ rfl)
  | _ => exact h

/-- A staging write: memory and journal hold one record, whose active slot is left alone. -/
theorem RecordRule.slot_write (rule : RecordRule crypto key adm Ok) {c : Call} {w₀ : OtaWorld}
    {a : OtaManager} {d : Disk} {q : Req} {f : Fault Tear} {manifest : OtaManifest}
    (h : RecordsOk Ok ⟨some a, d⟩) (hst : Staging crypto c w₀ a d manifest)
    (hq : q.slot = some a.stagingSlot) : RecordsOk Ok ⟨some a, device.after q d f⟩ := by
  have ha : Ok d.slots a.record := h.memory a rfl
  have hslot : a.stagingSlot = a.activeSlot.other := hst.slot_eq (rule.candidate ha)
  have hkeep : (device.after q d f).slots a.activeSlot = d.slots a.activeSlot := by
    refine after_slots_ne hq ?_
    rw [hslot]
    exact (Slot.other_ne _).symm
  have hok : Ok (device.after q d f).slots a.record := rule.staging ha hst.state_eq hkeep
  have hne : q ≠ .renameJournal := by
    rintro rfl
    cases hq
  refine ⟨?_, ?_⟩
  · rintro _ ⟨⟩
    exact hok
  · intro p hp
    have hj : d.journal = some (.whole p) := (after_journal (.inl hne)).symm.trans hp
    rw [hst.journaled] at hj
    cases hj
    exact hok

/-- **One request, whatever comes of it.** -/
theorem RecordRule.after_request (rule : RecordRule crypto key adm Ok) {c : Call} {w₀ : OtaWorld}
    {m m' : Option OtaManager} {d : Disk} {q : Req} {f : Fault Tear} (h : RecordsOk Ok ⟨m, d⟩)
    (hadm : adm ⟨c, w₀, .io m m' q f d⟩) (hq : Micro crypto key c w₀ m d m' q) :
    RecordsOk Ok ⟨m', device.after q d f⟩ := by
  have hat := rule.at_request h hadm hq
  -- a request that renames nothing and writes to no slot
  have hquiet : q ≠ .renameJournal → q.slot = none → RecordsOk Ok ⟨m', device.after q d f⟩ :=
    fun hne hslot => hat.of_same (after_journal (.inl hne)) (after_slots hslot)
  -- a `rename` of the fields of the live manager
  have hrename : ∀ b : OtaManager, q = .renameJournal → m' = some b → d.tmp = some (.whole b.record) →
      RecordsOk Ok ⟨m', device.after q d f⟩ := by
    rintro b rfl rfl ht
    have hslots : (device.after .renameJournal d f).slots = d.slots := after_slots rfl
    by_cases hf : f = .ok
    · subst hf
      have hb : Ok (device.after .renameJournal d .ok).slots b.record := by
        rw [hslots]
        exact hat.memory b rfl
      refine ⟨?_, ?_⟩
      · rintro _ ⟨⟩
        exact hb
      · intro p hp
        rw [after_rename ht] at hp
        cases hp
        exact hb
    · exact hat.of_same (after_journal (.inr hf)) hslots
  cases hq with
  | createDir _ => exact hquiet nofun rfl
  | readJournal _ => exact hquiet nofun rfl
  | writeInitial _ _ => exact hquiet nofun rfl
  | renameInitial _ _ ht => exact hrename _ rfl rfl ht
  | writeTmp _ => exact hquiet nofun rfl
  | syncTmp => exact hquiet nofun rfl
  | rename _ _ _ ht => exact hrename _ rfl rfl ht
  | syncDir => exact hquiet nofun rfl
  | createSlotDir hst => exact rule.slot_write h hst rfl
  | writeArtifact hst => exact rule.slot_write h hst rfl
  | writeVersion hst _ => exact rule.slot_write h hst rfl

/-- A return: `open` takes its fields from the journal, and nothing else changes them but
`ingest_chunk`, which touches no recorded field. -/
theorem RecordsOk.after_return {mf : Req → Prop} {c : Call} {w₀ : OtaWorld} {m m' : Option OtaManager}
    {d : Disk} {b : Except OtaError Reply} (h : RecordsOk Ok ⟨m, d⟩)
    (hret : Return key mf c w₀ m d (b, m')) : RecordsOk Ok ⟨m', d⟩ := by
  cases hret with
  | noManager _ => exact h
  | killed _ => exact h.gone
  | openFailed _ => exact h.gone
  | openedFresh _ _ => exact h
  | opened _ hj =>
      refine ⟨?_, h.journal⟩
      rintro _ ⟨⟩
      exact h.journal _ hj
  | @ingested a _ _ _ _ _ _ =>
      refine ⟨?_, h.journal⟩
      rintro _ ⟨⟩
      exact h.memory a rfl
  | settled _ => exact h
  | cut _ => exact h

/-- Every request may fail, tear or be the last. -/
def recordInvariant (rule : RecordRule crypto key adm Ok) :
    Invariant (ota crypto key) (fun _ => True) adm (Micro crypto key) (Return key fun _ => True)
      Unit where
  upd g _ := g
  At _ w := RecordsOk Ok w
  In _ _ _ w := RecordsOk Ok w
  Good _ s := RecordsOk Ok s.event.before ∧ RecordsOk Ok (s.event.after device none)
  enter h := h
  live {g c w₀ m d m' q f} inv h hadm hf _ := by
    have hafter := rule.after_request inv hadm h
    refine ⟨⟨rule.at_request inv hadm h, ?_⟩, hafter⟩
    cases f with
    | ok => exact hafter
    | fail t => exact hafter
    | die t => exact absurd rfl (hf t)
  die {g c w₀ m d m' q t} inv h hadm := by
    have hafter : RecordsOk Ok ⟨none, device.tear q t d⟩ := (rule.after_request inv hadm h).gone
    exact ⟨⟨rule.at_request inv hadm h, hafter⟩, hafter⟩
  ret {g c w₀ m d b m'} inv h _ := by
    have hafter := inv.after_return h
    exact ⟨⟨hafter, hafter⟩, hafter⟩

/-- **The rule for runs.** -/
theorem RecordRule.run (rule : RecordRule crypto key adm Ok) (slots : Slot → SlotDir) (sched : Schedule)
    (hadm : ∀ s ∈ ((ota crypto key).run sched (factory slots)).1, adm s) :
    (∀ pre s post, ((ota crypto key).run sched (factory slots)).1 = pre ++ s :: post →
        RecordsOk Ok s.event.before ∧ RecordsOk Ok (s.event.after device none)) ∧
      RecordsOk Ok ((ota crypto key).run sched (factory slots)).2 := by
  have hstart : RecordsOk Ok (factory slots) :=
    ⟨fun _ ha => (by cases ha), fun _ hp => (by cases hp)⟩
  obtain ⟨halong, hend⟩ := (recordInvariant rule).along_run (ota_follows crypto key _) sched
    (g := ()) hstart (fun s hs => ⟨failsOnly_true s, hadm s hs⟩)
  refine ⟨?_, hend⟩
  intro pre s post hrun
  rw [hrun] at halong
  exact halong.at_split

end Rule

/-! ## §2 Version files. -/

/-- What binds a record to the version files: the candidate's while it can be booted, the active slot's
once it is committed. -/
def RecordBound (slots : Slot → SlotDir) (p : PersistedOta) : Prop :=
  (p.state.bootable = true → ∃ t v, p.candidateSlot = some t ∧ p.candidateVersion = some v ∧
    (slots t).version = some (.whole v)) ∧
  (p.state = .committed → ∃ v, p.highestCommittedVersion = some v ∧
    (slots p.activeSlot).version = some (.whole v))

/-- `verify` gets past its checks on `a` and stages. -/
structure OtaManager.Accepts (a : OtaManager) (crypto : Crypto) (manifest : OtaManifest) : Prop where
  state : a.state = .downloading
  hash : hexEncode (crypto.sha256 a.buffered) = toLowercase manifest.artifactSha256Hex.toList
  signature : checkSignature crypto a.verifyingKey a.buffered manifest = .ok true

/-- A `verify` that is accepted is given the version that `start_download` recorded. -/
def VerifiesStarted (crypto : Crypto) (s : OtaStep) : Prop :=
  ∀ manifest a, s.call = .verify manifest → s.entry.mem = some a → a.Accepts crypto manifest →
    a.candidateVersion = some manifest.version

/-- The invariant behind `RecordBound`. -/
structure Bound (slots : Slot → SlotDir) (p : PersistedOta) : Prop where
  candidate : p.state.resting = false → p.candidateSlot = some p.activeSlot.other
  version : p.state.resting = false → ∃ v, p.candidateVersion = some v ∧
    ∀ h, p.highestCommittedVersion = some h → compareVersions v h = .gt
  bootable : p.state.bootable = true → ∀ v, p.candidateVersion = some v →
    (slots p.activeSlot.other).version = some (.whole v)
  committed : p.state = .committed → ∃ v, p.highestCommittedVersion = some v ∧
    (slots p.activeSlot).version = some (.whole v)

theorem bootable_busy {s : OtaState} (h : s.bootable = true) : s.resting = false := by
  revert h
  cases s <;> decide

theorem Bound.record {slots : Slot → SlotDir} {p : PersistedOta} (h : Bound slots p) :
    RecordBound slots p := by
  refine ⟨?_, h.committed⟩
  intro hb
  obtain ⟨v, hv, _⟩ := h.version (bootable_busy hb)
  exact ⟨_, v, h.candidate (bootable_busy hb), hv, h.bootable hb v hv⟩

/-- The commit turns the candidate's version file into the active slot's. -/
theorem Bound.commit {slots : Slot → SlotDir} {a : OtaManager} (h : Bound slots a.record)
    (hs : a.state = .healthChecking) :
    ∃ v, a.commit.highestCommittedVersion = some v ∧
      (slots a.commit.activeSlot).version = some (.whole v) := by
  have hboot : a.record.state.bootable = true := by
    rw [OtaManager.record_state, hs]
    rfl
  obtain ⟨v, hv, hgt⟩ := h.version (bootable_busy hboot)
  have hcand : a.candidateSlot = some a.activeSlot.other := h.candidate (bootable_busy hboot)
  refine ⟨v, ?_, ?_⟩
  · show raiseWatermark a.candidateVersion a.highestCommittedVersion = some v
    rw [show a.candidateVersion = some v from hv]
    exact raiseWatermark_of_gt hgt
  · show (slots (a.candidateSlot.getD a.activeSlot.other)).version = _
    rw [hcand]
    exact h.bootable hboot v hv

theorem Assign.bound {crypto : Crypto} {w₀ : OtaWorld} {c : Call} {a b : OtaManager} {d : Disk}
    {e : Event (Option OtaManager) Req Tear Disk (Except OtaError Reply)}
    (h : Assign crypto w₀ c a d b) (hadm : VerifiesStarted crypto ⟨c, w₀, e⟩)
    (ha : Bound d.slots a.record) : Bound d.slots b.record where
  candidate := h.candidate ha.candidate
  version := h.version_gt ha.version
  bootable hb := by
    rcases h.bootable_cases hb with ⟨manifest, hst, hslot, rfl⟩ | ⟨hboot, hact, hv⟩
    · -- staged just now: the slot holds the version of this `verify`
      obtain ⟨a₀, hmem, hdown, rfl⟩ := hst.entry
      have hstarted : a₀.candidateVersion = some manifest.version :=
        hadm manifest a₀ hst.call hmem ⟨hdown, hst.hash, hst.accepted⟩
      rw [hst.slot_eq ha.candidate] at hslot
      intro v hv
      have hv' : v = manifest.version := Option.some.inj (hv.symm.trans hstarted)
      show (d.slots a₀.activeSlot.other).version = _
      rw [hv']
      exact congrArg SlotDir.version hslot
    · rw [OtaManager.record_candidateVersion, hv, OtaManager.record_activeSlot, hact]
      exact ha.bootable hboot
  committed hb := by
    have hcommit : b = a.commit ∧ a.state = .healthChecking := by
      cases h with
      | commit _ hs => exact ⟨rfl, hs⟩
      | _ => cases hb
    obtain ⟨rfl, hs⟩ := hcommit
    exact ha.commit hs

theorem boundRule (crypto : Crypto) (key : Bytes) :
    RecordRule crypto key (VerifiesStarted crypto) Bound where
  initial _ := ⟨nofun, nofun, nofun, nofun⟩
  assign hadm h ha := h.bound hadm ha
  candidate h := h.candidate
  staging h hs hkeep := by
    refine ⟨h.candidate, h.version, ?_, ?_⟩
    · intro hb
      rw [hs] at hb
      cases hb
    · intro hc
      rw [hs] at hc
      cases hc

/-- **Version binding.** In every run in which each accepted `verify` is given the version that
`start_download` recorded, whatever fails and wherever the process dies: before and after every step,
for the manager's fields and for the journal, the version file of a bootable candidate names
`candidate_version`, and the version file of a committed slot names `highest_committed_version`. -/
theorem version_files_bound (crypto : Crypto) (key : Bytes) (slots : Slot → SlotDir) (sched : Schedule)
    (hstarted : ∀ s ∈ ((ota crypto key).run sched (factory slots)).1, VerifiesStarted crypto s)
    (pre post : List OtaStep) (s : OtaStep)
    (hrun : ((ota crypto key).run sched (factory slots)).1 = pre ++ s :: post) :
    RecordsOk RecordBound s.event.before ∧ RecordsOk RecordBound (s.event.after device none) := by
  have hbound : ∀ w, RecordsOk Bound w → RecordsOk RecordBound w :=
    fun w h => ⟨fun a ha => (h.memory a ha).record, fun p hp => (h.journal p hp).record⟩
  obtain ⟨hbefore, hafter⟩ := ((boundRule crypto key).run slots sched hstarted).1 pre s post hrun
  exact ⟨hbound _ hbefore, hbound _ hafter⟩

/-- In the first update, `start_download` and `verify` are given one manifest. -/
theorem firstUpdate_verifiesStarted : ∀ s ∈ firstUpdate, VerifiesStarted tabulated s := by
  have hall : firstUpdate.all (fun s =>
      match s.call with
      | .verify manifest => s.entry.mem.all fun a => a.candidateVersion = some manifest.version
      | _ => true) = true := by decide +kernel
  intro s hs manifest a hcall hmem _
  have hstep := List.all_eq_true.mp hall s hs
  simpa [hcall, hmem] using hstep

theorem version_files_bound_firstUpdate :
    ∃ (pre : List OtaStep) (s : OtaStep) (post : List OtaStep), firstUpdate = pre ++ s :: post ∧
      (∃ a, (s.event.after device none).mem = some a ∧ a.state = .committed) ∧
      RecordsOk RecordBound (s.event.after device none) := by
  have hlen : 42 < firstUpdate.length := by rw [firstUpdate_length]; omega
  have hstate := firstUpdate_moments.2.2.1
  rw [List.getElem?_eq_getElem hlen, Option.bind_some] at hstate
  have hsplit := split_at hlen
  have hbound := version_files_bound tabulated releaseKey emptySlots _ firstUpdate_verifiesStarted
    _ _ _ hsplit
  exact ⟨_, _, _, hsplit, Option.map_eq_some_iff.mp hstate, hbound.2⟩

/-- One update in which `start_download` is told version `1.0.0` and `verify` version `9.0.0`. -/
def mixedUpdate : Schedule :=
  [(.open, []), (.startDownload (signedManifest tabulated releaseSign [] "1.0.0"), []),
    (.verify (signedManifest tabulated releaseSign [] "9.0.0"), []), (.markRebootPending, []),
    (.simulateReboot, []), (.healthCheck true "", [])]

def mixedRun : List OtaStep × OtaWorld := (ota tabulated releaseKey).run mixedUpdate (factory emptySlots)

/-- The return of its `verify` ... -/
theorem mixedRun_staged :
    mixedRun.1.length = 42 ∧
      mixedRun.1[22]?.bind (fun (s : OtaStep) => (s.event.after device none).mem.map fun (a : OtaManager) =>
        (a.state, a.candidateSlot, a.candidateVersion,
          ((s.event.after device none).disk.slots .B).version)) =
        some (.staged, some .B, some "1.0.0", some (.whole "9.0.0")) := by
  decide +kernel

/-- ... and its end. -/
theorem mixedRun_committed :
    mixedRun.2.mem.map (fun a =>
      (a.state, a.activeSlot, a.highestCommittedVersion, (mixedRun.2.disk.slots .B).version)) =
      some (.committed, .B, some "1.0.0", some (.whole "9.0.0")) := by
  decide +kernel

/-- The slot is staged with version file `9.0.0` for candidate `1.0.0`, and committed so. -/
theorem verify_writes_its_own_version :
    (∃ s ∈ mixedRun.1, (∃ a, (s.event.after device none).mem = some a ∧ a.state = .staged) ∧
        ¬ RecordsOk RecordBound (s.event.after device none)) ∧
      (∃ a, mixedRun.2.mem = some a ∧ a.state = .committed) ∧ ¬ RecordsOk RecordBound mixedRun.2 := by
  obtain ⟨hlength, hat⟩ := mixedRun_staged
  constructor
  · -- the return of `verify`
    have hlen : 22 < mixedRun.1.length := by omega
    rw [List.getElem?_eq_getElem hlen, Option.bind_some] at hat
    obtain ⟨a, hmem, hfields⟩ := Option.map_eq_some_iff.mp hat
    simp only [Prod.mk.injEq] at hfields
    obtain ⟨hstate, hslot, hversion, hfile⟩ := hfields
    refine ⟨_, List.getElem_mem hlen, ⟨a, hmem, hstate⟩, ?_⟩
    intro hok
    obtain ⟨t, v, ht, hv, hbound⟩ := (hok.memory a hmem).1 (by simp [hstate, OtaState.bootable])
    have ht' : t = .B := Option.some.inj (ht.symm.trans hslot)
    have hv' : v = "1.0.0" := Option.some.inj (hv.symm.trans hversion)
    rw [ht', hfile, hv'] at hbound
    revert hbound
    decide
  · obtain ⟨a, hmem, hfields⟩ := Option.map_eq_some_iff.mp mixedRun_committed
    simp only [Prod.mk.injEq] at hfields
    obtain ⟨hstate, hslot, hversion, hfile⟩ := hfields
    refine ⟨⟨a, hmem, hstate⟩, ?_⟩
    intro hok
    obtain ⟨v, hv, hbound⟩ := (hok.memory a hmem).2 hstate
    have hv' : v = "1.0.0" := Option.some.inj (hv.symm.trans hversion)
    rw [OtaManager.record_activeSlot, hslot, hfile, hv'] at hbound
    revert hbound
    decide

end Edgewarden.Ota
