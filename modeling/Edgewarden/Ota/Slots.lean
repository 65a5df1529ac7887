/-
# Edgewarden.Ota.Slots — what the slot directories hold, over every run of the OTA manager.

Two results about every run of OTA calls, in any order, with any arguments, in which the process may
die at any request and any request may fail or be torn.

* `bootable_bytes_verified`: at every moment, a manager or a journal record from which the candidate
  can still be booted points at a slot whose `artifact.bin` passed the signature check under the
  device key, and so does the active slot once a commit is recorded.
* `slot_writes_isolated`: every slot write goes to a slot that is active neither in memory nor in
  the journal, so the contents of a committed slot stay put until another commit.

Both rest on ONE observation: `verify` stages only after its own `Verifying` record was journaled,
so at every slot write memory and journal agree, however far apart failed journal writes had
driven them before.
-/
import Edgewarden.Ota.Micro

namespace Edgewarden.Ota

open Edgewarden.FaultIo

/-! ## §1 Commits seen so far. -/

/-- The last commit recorded in the manager's fields and the last one journaled: the slot it made
active and what that slot held at that moment. -/
structure Commits where
  inMemory : Option (Slot × SlotDir)
  inJournal : Option (Slot × SlotDir)
  deriving DecidableEq, Repr

/-- The last commit in memory once the fields go from `a` to `b`. -/
def lastCommit (slots : Slot → SlotDir) (a b : OtaManager) (last : Option (Slot × SlotDir)) :
    Option (Slot × SlotDir) :=
  if committing a b then some (b.activeSlot, slots b.activeSlot) else last

/-- The effect of one event, as long as the process lives. -/
def Commits.observe (g : Commits) (s : OtaStep) : Commits :=
  match s.event with
  | .io (some a) (some b) (.writeTmp _) _ d => ⟨lastCommit d.slots a b g.inMemory, g.inJournal⟩
  | .io _ _ .renameJournal .ok _ => ⟨g.inMemory, g.inMemory⟩
  | _ => g

/-- A process that is gone, or that `open` is about to rebuild, knows what the journal knows. -/
def Commits.next (g : Commits) (s : OtaStep) : Commits :=
  let g' := g.observe s
  if (s.event.after device none).mem.isNone then ⟨g'.inJournal, g'.inJournal⟩ else g'

def commitsSeen (steps : List OtaStep) : Commits := steps.foldl Commits.next ⟨none, none⟩

/-! ## §2 The invariant. -/

section SlotInvariant

variable (crypto : Crypto) (key : Bytes)

/-- `artifact.bin` exists and passes Ed25519 verification under the device key. -/
def Verified (dir : SlotDir) : Prop := ∃ bytes, dir.artifact = some bytes ∧ crypto.Passes key bytes

/-- What one record (the manager's or the journal's) promises about the slots. -/
structure RecordOk (last : Option (Slot × SlotDir)) (slots : Slot → SlotDir) (p : PersistedOta) :
    Prop where
  candidate : p.state.resting = false → p.candidateSlot = some p.activeSlot.other
  bootable : p.state.bootable = true → Verified crypto key (slots p.activeSlot.other)
  active : ∀ t dir, last = some (t, dir) →
    p.activeSlot = t ∧ slots t = dir ∧ Verified crypto key dir

/-- What the journal promises. -/
structure JournalOk (last : Option (Slot × SlotDir)) (d : Disk) : Prop where
  decodes : d.journal ≠ some .garbled
  record : ∀ p, d.journal = some (.whole p) → RecordOk crypto key last d.slots p
  fresh : d.journal = none → last = none

/-- What the manager in memory, if there is one, promises. -/
structure MemoryOk (last : Option (Slot × SlotDir)) (m : Option OtaManager)
    (slots : Slot → SlotDir) : Prop where
  record : ∀ a, m = some a → RecordOk crypto key last slots a.record
  keyed : ∀ a, m = some a → a.verifyingKey = key

/-- The invariant that ties memory, journal and slots together. -/
structure SlotInv (g : Commits) (w : OtaWorld) : Prop where
  journal : JournalOk crypto key g.inJournal w.disk
  memory : MemoryOk crypto key g.inMemory w.mem w.disk.slots
  gone : w.mem = none → g.inMemory = g.inJournal

end SlotInvariant

/-- A request that names a slot is issued by a live manager over a journal that decodes, and the
slot is active in neither. -/
def WriteIsolated (m : Option OtaManager) (q : Req) (d : Disk) : Prop :=
  ∀ t, q.slot = some t →
    ∃ a p, m = some a ∧ d.journal = some (.whole p) ∧ a.activeSlot ≠ t ∧ p.activeSlot ≠ t

section SlotLemmas

variable {crypto : Crypto} {key : Bytes}

theorem checkSignature_passes {bytes : Bytes} {manifest : OtaManifest}
    (h : checkSignature crypto key bytes manifest = .ok true) : crypto.Passes key bytes := by
  unfold checkSignature at h
  cases hd : Text.hexDecode (Text.trim manifest.signatureHex.toList) with
  | none => simp [hd] at h
  | some sig =>
      simp only [hd] at h
      by_cases hl : sig.length = 64
      · cases hk : crypto.keyFromBytes key with
        | error e => simp [hl, hk] at h
        | ok vk =>
            refine ⟨vk, sig, hk, ?_⟩
            simpa [hl, hk] using h
      · simp [hl] at h

/-- A busy manager has its candidate in the inactive slot. -/
theorem Assign.candidate {w₀ : OtaWorld} {c : Call} {a b : OtaManager} {d : Disk}
    (h : Assign crypto w₀ c a d b)
    (ha : a.state.resting = false → a.candidateSlot = some a.activeSlot.other) :
    b.state.resting = false → b.candidateSlot = some b.activeSlot.other := by
  cases h with
  | start _ _ => exact fun _ => rfl
  | verifying _ hs => exact fun _ => ha (by rw [hs]; rfl)
  | rejected _ _ => exact nofun
  | staged hst _ =>
      obtain ⟨a₀, _, _, rfl⟩ := hst.entry
      exact fun _ => ha rfl
  | rebootPending _ hs => exact fun _ => ha (by rw [hs]; rfl)
  | booting _ hs => exact fun _ => ha (by rw [hs]; rfl)
  | checking _ hs => exact fun _ => ha (by rw [hs]; rfl)
  | commit _ _ => exact nofun
  | unhealthy _ hs => exact fun _ => ha (by rw [hs]; rfl)
  | autoRollback _ _ => exact nofun
  | rollback _ _ => exact nofun
  | restart _ _ => exact nofun
  | recheck _ hs => exact fun _ => ha (by rcases hs with hs | hs | hs <;> rw [hs] <;> rfl)

theorem Staging.state_eq {c : Call} {w₀ : OtaWorld} {a : OtaManager} {d : Disk}
    {manifest : OtaManifest} (h : Staging crypto c w₀ a d manifest) : a.state = .verifying := by
  obtain ⟨a₀, _, _, rfl⟩ := h.entry
  rfl

/-- `verify` stages into the slot that is not active. -/
theorem Staging.slot_eq {c : Call} {w₀ : OtaWorld} {a : OtaManager} {d : Disk}
    {manifest : OtaManifest} (h : Staging crypto c w₀ a d manifest)
    (ha : a.state.resting = false → a.candidateSlot = some a.activeSlot.other) :
    a.stagingSlot = a.activeSlot.other := by
  have hcand : a.candidateSlot = some a.activeSlot.other := ha (by rw [h.state_eq]; rfl)
  show a.candidateSlot.getD .B = _
  rw [hcand]
  rfl

/-- A bootable state is reached by staging verified bytes, or from a bootable state. -/
theorem Assign.bootable {w₀ : OtaWorld} {c : Call} {a b : OtaManager} {d : Disk}
    (h : Assign crypto w₀ c a d b)
    (ha : a.state.resting = false → a.candidateSlot = some a.activeSlot.other)
    (hkey : a.verifyingKey = key)
    (hb : a.state.bootable = true → Verified crypto key (d.slots a.activeSlot.other)) :
    b.state.bootable = true → Verified crypto key (d.slots b.activeSlot.other) := by
  intro hboot
  rcases h.bootable_cases hboot with ⟨manifest, hst, hslot, rfl⟩ | ⟨hboot', hact, _⟩
  · rw [hst.slot_eq ha] at hslot
    have hacc := hst.accepted
    rw [hkey] at hacc
    exact ⟨_, by rw [hslot], checkSignature_passes hacc⟩
  · rw [hact]
    exact hb hboot'

/-- **Every assignment keeps the record's promises**, and the commit branch renews the one about the
active slot. -/
theorem Assign.recordOk {w₀ : OtaWorld} {c : Call} {a b : OtaManager} {d : Disk}
    {last : Option (Slot × SlotDir)} (h : Assign crypto w₀ c a d b) (hkey : a.verifyingKey = key)
    (ok : RecordOk crypto key last d.slots a.record) :
    RecordOk crypto key (lastCommit d.slots a b last) d.slots b.record where
  candidate := h.candidate ok.candidate
  bootable := h.bootable ok.candidate hkey ok.bootable
  active := by
    unfold lastCommit
    rcases h.commit_or_keep with ⟨hc, _, _, hs, rfl⟩ | ⟨hc, hact, _⟩
    · have hcand : a.candidateSlot = some a.activeSlot.other :=
        ok.candidate (by simp [hs, OtaState.resting])
      have hb : Verified crypto key (d.slots a.activeSlot.other) :=
        ok.bootable (by simp [hs, OtaState.bootable])
      have hnew : a.commit.activeSlot = a.activeSlot.other := by
        show a.candidateSlot.getD a.activeSlot.other = _
        rw [hcand]
        rfl
      intro t dir ht
      rw [if_pos hc, hnew] at ht
      cases ht
      exact ⟨hnew, rfl, hb⟩
    · rw [hc, OtaManager.record_activeSlot, hact]
      exact ok.active

/-- Writing to the inactive slot while the record is not bootable breaks no promise. -/
theorem RecordOk.slots_changed {last : Option (Slot × SlotDir)} {slots slots' : Slot → SlotDir} {p : PersistedOta}
    (ok : RecordOk crypto key last slots p) (hb : p.state.bootable = false)
    (hkeep : slots' p.activeSlot = slots p.activeSlot) :
    RecordOk crypto key last slots' p where
  candidate := ok.candidate
  bootable h := by rw [hb] at h; cases h
  active t dir h := by
    obtain ⟨rfl, hdir, hv⟩ := ok.active t dir h
    exact ⟨rfl, hkeep.trans hdir, hv⟩

theorem JournalOk.of_same {last : Option (Slot × SlotDir)} {d d' : Disk} (ok : JournalOk crypto key last d)
    (hj : d'.journal = d.journal) (hs : d'.slots = d.slots) : JournalOk crypto key last d' where
  decodes := by rw [hj]; exact ok.decodes
  record p hp := by rw [hj] at hp; rw [hs]; exact ok.record p hp
  fresh h := by rw [hj] at h; exact ok.fresh h

theorem JournalOk.of_whole {last : Option (Slot × SlotDir)} {d : Disk} {p : PersistedOta}
    (hj : d.journal = some (.whole p)) (hp : RecordOk crypto key last d.slots p) :
    JournalOk crypto key last d where
  decodes := by rw [hj]; nofun
  record p' hp' := by
    rw [hj] at hp'
    cases hp'
    exact hp
  fresh h := by rw [hj] at h; cases h

theorem MemoryOk.none {last : Option (Slot × SlotDir)} {slots : Slot → SlotDir} :
    MemoryOk crypto key last none slots where
  record a ha := by cases ha
  keyed a ha := by cases ha

theorem MemoryOk.some {last : Option (Slot × SlotDir)} {slots : Slot → SlotDir} {a : OtaManager}
    (hr : RecordOk crypto key last slots a.record) (hk : a.verifyingKey = key) :
    MemoryOk crypto key last (some a) slots := by
  refine ⟨?_, ?_⟩
  · rintro _ ⟨⟩
    exact hr
  · rintro _ ⟨⟩
    exact hk

/-- The initial manager promises nothing about the slots. -/
theorem recordOk_initial {slots : Slot → SlotDir} :
    RecordOk crypto key none slots (OtaManager.initial key).record := ⟨nofun, nofun, nofun⟩

/-- The memory a request is issued with keeps its promises on the disk as it then is. -/
theorem SlotInv.at_request {g : Commits} {c : Call} {w₀ : OtaWorld} {m m' : Option OtaManager}
    {d : Disk} {q : Req} {f : Fault Tear} (inv : SlotInv crypto key g ⟨m, d⟩)
    (h : Micro crypto key c w₀ m d m' q) :
    MemoryOk crypto key (g.observe ⟨c, w₀, .io m m' q f d⟩).inMemory m' d.slots := by
  cases h with
  | createDir _ => exact .none
  | readJournal _ => exact .none
  | writeInitial _ hj =>
      -- no journal: no commit was ever recorded, so the initial manager owes nothing
      have hnone : g.inMemory = none := (inv.gone rfl).trans (inv.journal.fresh hj)
      show MemoryOk crypto key g.inMemory _ _
      rw [hnone]
      exact .some recordOk_initial rfl
  | renameInitial _ _ _ => cases f <;> exact inv.memory
  | writeTmp hassign =>
      have ha := inv.memory.record _ rfl
      have hk := inv.memory.keyed _ rfl
      exact .some (hassign.recordOk hk ha) (hassign.verifyingKey.trans hk)
  | syncTmp => cases m <;> exact inv.memory
  | rename _ _ _ _ => cases f <;> exact inv.memory
  | syncDir => cases m <;> exact inv.memory
  | createSlotDir _ => exact inv.memory
  | writeArtifact _ => exact inv.memory
  | writeVersion _ _ => exact inv.memory

/-- `verify` writes to a slot only while memory and journal hold the same `Verifying` record. -/
theorem Staging.isolated {c : Call} {w₀ : OtaWorld} {a : OtaManager} {d : Disk} {q : Req}
    {manifest : OtaManifest} {last : Option (Slot × SlotDir)}
    (h : Staging crypto c w₀ a d manifest) (ok : RecordOk crypto key last d.slots a.record)
    (hq : q.slot = some a.stagingSlot) : WriteIsolated (some a) q d := by
  intro t ht
  have hslot : t = a.activeSlot.other := by
    rw [hq, h.slot_eq ok.candidate] at ht
    cases ht
    rfl
  have hne : a.activeSlot ≠ t := by
    rw [hslot]
    exact (Slot.other_ne _).symm
  exact ⟨a, a.record, rfl, h.journaled, hne, hne⟩

/-- Every slot write a call can issue is isolated. -/
theorem SlotInv.write_isolated {g : Commits} {c : Call} {w₀ : OtaWorld} {m m' : Option OtaManager}
    {d : Disk} {q : Req} (inv : SlotInv crypto key g ⟨m, d⟩)
    (h : Micro crypto key c w₀ m d m' q) : WriteIsolated m' q d := by
  cases h with
  | createSlotDir hst => exact hst.isolated (inv.memory.record _ rfl) rfl
  | writeArtifact hst => exact hst.isolated (inv.memory.record _ rfl) rfl
  | writeVersion hst _ => exact hst.isolated (inv.memory.record _ rfl) rfl
  | _ => exact nofun

/-- A slot write of `verify`, whatever comes of it, keeps both promises: memory and journal hold the
same `Verifying` record, and its active slot is not the one written to. -/
theorem SlotInv.slot_write {g : Commits} {c : Call} {w₀ : OtaWorld} {a : OtaManager} {d : Disk}
    {q : Req} {f : Fault Tear} {manifest : OtaManifest} (inv : SlotInv crypto key g ⟨some a, d⟩)
    (h : Staging crypto c w₀ a d manifest) (hq : q.slot = some a.stagingSlot) :
    JournalOk crypto key g.inJournal (device.after q d f) ∧
      MemoryOk crypto key g.inMemory (some a) (device.after q d f).slots := by
  have ha := inv.memory.record a rfl
  have hrec := inv.journal.record a.record h.journaled
  have hboot : a.record.state.bootable = false := by rw [OtaManager.record_state, h.state_eq]; rfl
  have hkeep : (device.after q d f).slots a.activeSlot = d.slots a.activeSlot := by
    refine after_slots_ne hq ?_
    rw [h.slot_eq ha.candidate]
    exact (Slot.other_ne _).symm
  have hj : (device.after q d f).journal = some (.whole a.record) := by
    have hne : q ≠ .renameJournal := by rintro rfl; cases hq
    rw [after_journal (.inl hne)]
    exact h.journaled
  exact ⟨.of_whole hj (hrec.slots_changed hboot hkeep),
    .some (ha.slots_changed hboot hkeep) (inv.memory.keyed a rfl)⟩

/-- A `rename`, whatever comes of it: when it completes the journal promises what memory promises. -/
theorem SlotInv.rename {g : Commits} {c : Call} {w₀ : OtaWorld} {b : OtaManager} {d : Disk}
    {f : Fault Tear} (inv : SlotInv crypto key g ⟨some b, d⟩) (ht : d.tmp = some (.whole b.record)) :
    JournalOk crypto key (g.observe ⟨c, w₀, .io (some b) (some b) .renameJournal f d⟩).inJournal
        (device.after .renameJournal d f) ∧
      MemoryOk crypto key (g.observe ⟨c, w₀, .io (some b) (some b) .renameJournal f d⟩).inMemory
        (some b) (device.after .renameJournal d f).slots := by
  have hslots : (device.after .renameJournal d f).slots = d.slots := after_slots rfl
  have hb := inv.memory.record b rfl
  cases f with
  | ok =>
      refine ⟨.of_whole (after_rename ht) ?_, ?_⟩
      · rw [hslots]
        exact hb
      · rw [hslots]
        exact inv.memory
  | fail t => exact ⟨inv.journal.of_same (after_journal (.inr nofun)) hslots, hslots ▸ inv.memory⟩
  | die t => exact ⟨inv.journal.of_same (after_journal (.inr nofun)) hslots, hslots ▸ inv.memory⟩

/-- **One request, whatever comes of it, keeps the promises of journal and memory.** -/
theorem SlotInv.after_request {g : Commits} {c : Call} {w₀ : OtaWorld} {m m' : Option OtaManager}
    {d : Disk} {q : Req} {f : Fault Tear} (inv : SlotInv crypto key g ⟨m, d⟩)
    (h : Micro crypto key c w₀ m d m' q) :
    JournalOk crypto key (g.observe ⟨c, w₀, .io m m' q f d⟩).inJournal (device.after q d f) ∧
      MemoryOk crypto key (g.observe ⟨c, w₀, .io m m' q f d⟩).inMemory m'
        (device.after q d f).slots := by
  -- requests that change neither journal nor slots
  have hquiet : q ≠ .renameJournal → q.slot = none →
      (g.observe ⟨c, w₀, .io m m' q f d⟩).inJournal = g.inJournal →
      JournalOk crypto key (g.observe ⟨c, w₀, .io m m' q f d⟩).inJournal (device.after q d f) ∧
        MemoryOk crypto key (g.observe ⟨c, w₀, .io m m' q f d⟩).inMemory m'
          (device.after q d f).slots := by
    intro hq hslot hg
    have hs : (device.after q d f).slots = d.slots := after_slots hslot
    refine ⟨?_, ?_⟩
    · rw [hg]
      exact inv.journal.of_same (after_journal (.inl hq)) hs
    · rw [hs]
      exact inv.at_request h
  cases h with
  | createDir hc => exact hquiet nofun rfl (by cases m <;> rfl)
  | readJournal hc => exact hquiet nofun rfl rfl
  | writeInitial hc hj => exact hquiet nofun rfl rfl
  | renameInitial _ _ ht => exact inv.rename ht
  | writeTmp hassign => exact hquiet nofun rfl rfl
  | syncTmp => exact hquiet nofun rfl (by cases m <;> rfl)
  | rename _ _ _ ht => exact inv.rename ht
  | syncDir => exact hquiet nofun rfl (by cases m <;> rfl)
  | createSlotDir hst => exact inv.slot_write hst rfl
  | writeArtifact hst => exact inv.slot_write hst rfl
  | writeVersion hst _ => exact inv.slot_write hst rfl

/-- From the promises of journal and memory to the invariant at the next moment. -/
theorem SlotInv.next {g : Commits} {s : OtaStep} (hj : JournalOk crypto key (g.observe s).inJournal
    (s.event.after device none).disk)
    (hm : MemoryOk crypto key (g.observe s).inMemory (s.event.after device none).mem
      (s.event.after device none).disk.slots) :
    SlotInv crypto key (g.next s) (s.event.after device none) := by
  unfold Commits.next
  cases hmem : (s.event.after device none).mem with
  | none =>
      refine ⟨hj, ?_, fun _ => rfl⟩
      rw [hmem]
      exact .none
  | some a =>
      refine ⟨hj, hm, ?_⟩
      rw [hmem]
      exact nofun

/-- A return keeps the promises: memory changes only by `open` (to what the journal holds), by
`ingest_chunk` (not in the record) or by disappearing. -/
theorem SlotInv.after_return {g : Commits} {mf : Req → Prop} {c : Call} {w₀ : OtaWorld}
    {m m' : Option OtaManager} {d : Disk} {b : Except OtaError Reply}
    (inv : SlotInv crypto key g ⟨m, d⟩) (h : Return key mf c w₀ m d (b, m')) :
    MemoryOk crypto key g.inMemory m' d.slots := by
  cases h with
  | noManager _ => exact .none
  | killed _ => exact .none
  | openFailed _ => exact .none
  | openedFresh _ _ => exact inv.memory
  | opened _ hj =>
      have hp := inv.journal.record _ hj
      have hg : g.inMemory = g.inJournal := inv.gone rfl
      rw [hg]
      exact .some hp rfl
  | @ingested a _ _ _ _ _ _ => exact .some (inv.memory.record a rfl) (inv.memory.keyed a rfl)
  | settled _ => exact inv.memory
  | cut _ => exact inv.memory

end SlotLemmas

/-- The slot write an event stands for, if it is one, is isolated. -/
def StepIsolated (s : OtaStep) : Prop :=
  ∀ q, s.event.request = some q → WriteIsolated s.event.before.mem q s.event.before.disk

theorem stepIsolated_io {c : Call} {w₀ : OtaWorld} {m m' : Option OtaManager} {q : Req}
    {f : Fault Tear} {d : Disk} (h : WriteIsolated m' q d) :
    StepIsolated ⟨c, w₀, .io m m' q f d⟩ := by
  intro q' hq'
  cases hq'
  exact h

/-- The slot invariant as an invariant of the system in which every request may fail. -/
def slotInvariant (crypto : Crypto) (key : Bytes) :
    Invariant (ota crypto key) (fun _ => True) (fun _ => True) (Micro crypto key)
      (Return key fun _ => True) Commits where
  upd := Commits.next
  At := SlotInv crypto key
  In g _ _ w := SlotInv crypto key g w
  Good g s :=
    MemoryOk crypto key (g.observe s).inMemory s.event.before.mem s.event.before.disk.slots ∧
      JournalOk crypto key g.inJournal s.event.before.disk ∧
      SlotInv crypto key (g.next s) (s.event.after device none) ∧ StepIsolated s
  enter h := h
  live {g c w₀ m d m' q f} inv h _ hf _ := by
    obtain ⟨hj, hm⟩ := inv.after_request (f := f) h
    have hafter : (Event.io m m' q f d : Event _ _ _ _ (Except OtaError Reply)).after device none =
        ⟨m', device.after q d f⟩ := by
      cases f with
      | ok => rfl
      | fail t => rfl
      | die t => exact absurd rfl (hf t)
    have hnext : SlotInv crypto key (g.next ⟨c, w₀, .io m m' q f d⟩) ⟨m', device.after q d f⟩ := by
      have h := SlotInv.next (g := g) (s := ⟨c, w₀, .io m m' q f d⟩) (by rw [hafter]; exact hj)
        (by rw [hafter]; exact hm)
      rwa [hafter] at h
    refine ⟨⟨inv.at_request h, inv.journal, ?_, stepIsolated_io (inv.write_isolated h)⟩, hnext⟩
    rw [hafter]
    exact hnext
  die {g c w₀ m d m' q t} inv h _ := by
    have hnext : SlotInv crypto key (g.next ⟨c, w₀, .io m m' q (.die t) d⟩)
        ⟨none, device.tear q t d⟩ :=
      SlotInv.next (inv.after_request (f := .die t) h).1 .none
    exact ⟨⟨inv.at_request h, inv.journal, hnext, stepIsolated_io (inv.write_isolated h)⟩, hnext⟩
  ret {g c w₀ m d b m'} inv h _ := by
    have hm := inv.after_return h
    have hnext : SlotInv crypto key (g.next ⟨c, w₀, .ret m m' b d⟩) ⟨m', d⟩ :=
      SlotInv.next (s := ⟨c, w₀, .ret m m' b d⟩) inv.journal hm
    exact ⟨⟨hm, inv.journal, hnext, fun q hq => by cases hq⟩, hnext⟩

theorem failsOnly_true (s : OtaStep) : FailsOnly (fun _ => True) s := by
  unfold FailsOnly
  split <;> trivial

theorem slotInv_factory (crypto : Crypto) (key : Bytes) (slots : Slot → SlotDir) :
    SlotInv crypto key ⟨none, none⟩ (factory slots) where
  journal :=
    { decodes := by intro h; cases h
      record := by intro p hp; cases hp
      fresh := fun _ => rfl }
  memory := .none
  gone _ := rfl

/-- The run rule at the slot invariant. -/
theorem slotInvariant_along (crypto : Crypto) (key : Bytes) (slots : Slot → SlotDir)
    (sched : Schedule) :
    Along Commits.next (slotInvariant crypto key).Good ⟨none, none⟩
      ((ota crypto key).run sched (factory slots)).1 :=
  ((slotInvariant crypto key).along_run (ota_follows crypto key _) sched
    (slotInv_factory crypto key slots) (fun s _ => ⟨failsOnly_true s, trivial⟩)).1

/-! ## §3 Only verified bytes are bootable. -/

/-- What verified boot asks of one record, after a commit or before the first one. -/
def RecordBoots (crypto : Crypto) (key : Bytes) (committed : Bool) (slots : Slot → SlotDir)
    (p : PersistedOta) : Prop :=
  (p.state.bootable = true → ∃ s, p.candidateSlot = some s ∧ Verified crypto key (slots s)) ∧
  (committed = true → Verified crypto key (slots p.activeSlot))

/-- ... and of one moment: of the manager's fields, if a process is alive, and of the journal. -/
def BootSafe (crypto : Crypto) (key : Bytes) (g : Commits) (w : OtaWorld) : Prop :=
  (∀ m, w.mem = some m → RecordBoots crypto key g.inMemory.isSome w.disk.slots m.record) ∧
  (∀ p, w.disk.journal = some (.whole p) →
    RecordBoots crypto key g.inJournal.isSome w.disk.slots p)

theorem RecordOk.boots {crypto : Crypto} {key : Bytes} {last : Option (Slot × SlotDir)}
    {slots : Slot → SlotDir} {p : PersistedOta} (h : RecordOk crypto key last slots p) :
    RecordBoots crypto key last.isSome slots p := by
  refine ⟨fun hb => ⟨_, h.candidate ?_, h.bootable hb⟩, ?_⟩
  · revert hb
    cases p.state <;> decide
  · intro hsome
    obtain ⟨⟨t, dir⟩, hlast⟩ := Option.isSome_iff_exists.mp hsome
    obtain ⟨rfl, rfl, hv⟩ := h.active t dir hlast
    exact hv

theorem bootSafe_of_ok {crypto : Crypto} {key : Bytes} {g : Commits} {w : OtaWorld}
    (hm : MemoryOk crypto key g.inMemory w.mem w.disk.slots)
    (hj : JournalOk crypto key g.inJournal w.disk) : BootSafe crypto key g w :=
  ⟨fun a ha => (hm.record a ha).boots, fun p hp => (hj.record p hp).boots⟩

theorem commitsSeen_append_one (pre : List OtaStep) (s : OtaStep) :
    commitsSeen (pre ++ [s]) = (commitsSeen pre).next s := by
  simp [commitsSeen, List.foldl_append]

/-- **Only signature-verified bytes are ever bootable.** At every step of every run: just before the
request (with the fields already assigned) and just after it (whatever it left behind), for the
manager's fields and for the journal. -/
theorem bootable_bytes_verified (crypto : Crypto) (key : Bytes) (slots : Slot → SlotDir)
    (sched : Schedule) (pre post : List OtaStep) (s : OtaStep)
    (hrun : ((ota crypto key).run sched (factory slots)).1 = pre ++ s :: post) :
    BootSafe crypto key ⟨((commitsSeen pre).observe s).inMemory, (commitsSeen pre).inJournal⟩
        s.event.before ∧
      BootSafe crypto key (commitsSeen (pre ++ [s])) (s.event.after device none) := by
  have halong := slotInvariant_along crypto key slots sched
  rw [hrun] at halong
  obtain ⟨hm, hj, hnext, _⟩ := halong.at_split
  refine ⟨bootSafe_of_ok hm hj, ?_⟩
  rw [commitsSeen_append_one]
  exact bootSafe_of_ok hnext.memory hnext.journal

/-- The run of the first open and one complete update. -/
def firstUpdate : List OtaStep :=
  ((ota tabulated releaseKey).run ((.open, []) :: fullUpdate [] "1.0.0") (factory emptySlots)).1

/-- Its staging write and its last moment, evaluated once. -/
theorem firstUpdate_moments :
    firstUpdate.length = 43 ∧
      firstUpdate[17]?.bind (fun (s : OtaStep) => s.event.request) = some (.writeArtifact .B []) ∧
      firstUpdate[42]?.bind (fun (s : OtaStep) => (s.event.after device none).mem.map fun a => a.state) =
        some .committed ∧
      (commitsSeen (firstUpdate.take 43)).inJournal.isSome := by
  decide +kernel

theorem firstUpdate_length : firstUpdate.length = 43 := firstUpdate_moments.1

theorem bootable_bytes_verified_firstUpdate :
    ∃ (pre : List OtaStep) (s : OtaStep) (post : List OtaStep), firstUpdate = pre ++ s :: post ∧
      (commitsSeen (pre ++ [s])).inJournal.isSome ∧
      BootSafe tabulated releaseKey (commitsSeen (pre ++ [s])) (s.event.after device none) := by
  have hlen : 42 < firstUpdate.length := by rw [firstUpdate_length]; omega
  have hsplit := split_at hlen
  refine ⟨_, _, _, hsplit, ?_, ?_⟩
  · rw [List.take_append_getElem]
    exact firstUpdate_moments.2.2.2
  · exact (bootable_bytes_verified tabulated releaseKey emptySlots _ _ _ _ hsplit).2

/-! ## §4 Slot writes never touch an active slot. -/

/-- What the last commit, in memory and in the journal, made active is still active there and its
slot directory holds what it held then. -/
def ActiveHeld (g : Commits) (w : OtaWorld) : Prop :=
  (∀ m t dir, w.mem = some m → g.inMemory = some (t, dir) →
    m.activeSlot = t ∧ w.disk.slots t = dir) ∧
  (∀ p t dir, w.disk.journal = some (.whole p) → g.inJournal = some (t, dir) →
    p.activeSlot = t ∧ w.disk.slots t = dir)

theorem activeHeld_of_ok {crypto : Crypto} {key : Bytes} {g : Commits} {w : OtaWorld}
    (hm : MemoryOk crypto key g.inMemory w.mem w.disk.slots)
    (hj : JournalOk crypto key g.inJournal w.disk) : ActiveHeld g w := by
  refine ⟨?_, ?_⟩
  · intro m t dir hmem hlast
    have hact := (hm.record m hmem).active t dir hlast
    exact ⟨hact.1, hact.2.1⟩
  · intro p t dir hp hlast
    have hact := (hj.record p hp).active t dir hlast
    exact ⟨hact.1, hact.2.1⟩

/-- **A/B isolation.** At every step of every run, a slot write targets a slot that is active neither
in memory nor in the journal; and, before and after the step, the slot the last commit made active
is still active and holds what it held when it was committed. -/
theorem slot_writes_isolated (crypto : Crypto) (key : Bytes) (slots : Slot → SlotDir)
    (sched : Schedule) (pre post : List OtaStep) (s : OtaStep)
    (hrun : ((ota crypto key).run sched (factory slots)).1 = pre ++ s :: post) :
    StepIsolated s ∧
      ActiveHeld ⟨((commitsSeen pre).observe s).inMemory, (commitsSeen pre).inJournal⟩
        s.event.before ∧
      ActiveHeld (commitsSeen (pre ++ [s])) (s.event.after device none) := by
  have halong := slotInvariant_along crypto key slots sched
  rw [hrun] at halong
  obtain ⟨hm, hj, hnext, hiso⟩ := halong.at_split
  refine ⟨hiso, activeHeld_of_ok hm hj, ?_⟩
  rw [commitsSeen_append_one]
  exact activeHeld_of_ok hnext.memory hnext.journal

theorem slot_writes_isolated_firstUpdate :
    ∃ (pre : List OtaStep) (s : OtaStep) (post : List OtaStep), firstUpdate = pre ++ s :: post ∧
      s.event.request = some (.writeArtifact .B []) ∧ StepIsolated s := by
  have hlen : 17 < firstUpdate.length := by rw [firstUpdate_length]; omega
  have hreq := firstUpdate_moments.2.1
  rw [List.getElem?_eq_getElem hlen, Option.bind_some] at hreq
  have hsplit := split_at hlen
  have hiso := slot_writes_isolated tabulated releaseKey emptySlots _ _ _ _ hsplit
  exact ⟨_, _, _, hsplit, hreq, hiso.1⟩

end Edgewarden.Ota
