/-
# Edgewarden.Ota.PowerLoss — the files of an update under power loss.

`Ota.Manager` kills the process and keeps the disk. Here the disk itself is volatile: contents are durable
once the file is synced, an entry of a directory once the directory is synced, and a power loss keeps any
selection of the other writes (`Lib.Durable`). The manager's programs are the same, on the finer device
`storage`; `powered_run_view` says that what a process sees of its runs is a run of `ota`.

`persist` syncs the temporary file before the rename and the directory after it, so a record that may be
under the journal's name after a loss was complete (`Shelved.files`). `verify` writes `artifact.bin` and
`version` with `fs::write` and syncs neither the files nor the slot directory: their writes stay
undurable for ever.

* `staged_survives_power_loss`: a loss that keeps the latest write to each of the five places of the slot
  leaves exactly what `verify` wrote.
* `artifact_lost_after_staged`: one that does not leaves `Staged` without its artifact.

The OTA directory itself is taken to be durable: with it the journal is lost, and with the journal every
bootable state.
-/
import Edgewarden.Lib.Durable
import Edgewarden.Ota.Commit

namespace Edgewarden.Ota

open Edgewarden.FaultIo Edgewarden.Durable Edgewarden.Text

/-! ## §1 Storage. -/

/-- The OTA directory. The journal's entry names a file that was complete when it was renamed, with its
own undurable writes; a new file is empty, which decodes to nothing. -/
structure Storage where
  tmp : File (Contents PersistedOta)
  journal : Cell (Option (Cell (Contents PersistedOta)))
  slotDir : Slot → Cell Bool
  artifact : Slot → File Bytes
  version : Slot → File (Contents String)

namespace Storage

/-- The disk as a process sees it. -/
def view (st : Storage) : Disk where
  journal := st.journal.value.map Cell.value
  tmp := st.tmp.view
  slots s := ⟨(st.artifact s).view, (st.version s).view⟩

/-- The storage of a device as it is shipped: all of it durable. -/
def factory (slots : Slot → SlotDir) : Storage where
  tmp := File.missing .garbled
  journal := Cell.of none
  slotDir s := Cell.of ((slots s).artifact.isSome || (slots s).version.isSome)
  artifact s := File.ofOption [] (slots s).artifact
  version s := File.ofOption (.whole "") (slots s).version

/-- `fs::write` of the temporary file. -/
def writeTmp (st : Storage) (c : Contents PersistedOta) : Storage :=
  { st with tmp := st.tmp.write .garbled c }

/-- `sync_all` of the temporary file, if it can be opened. -/
def syncTmp (st : Storage) : Storage :=
  if st.tmp.entry.value then { st with tmp := { st.tmp with contents := st.tmp.contents.sync } } else st

/-- `fs::rename`: two changes of the OTA directory. -/
def renameJournal (st : Storage) : Storage :=
  if st.tmp.entry.value then
    { st with
      journal := st.journal.write (some st.tmp.contents)
      tmp := ⟨st.tmp.entry.write false, Cell.of .garbled⟩ }
  else st

/-- `sync_all` of the OTA directory: the journal's entry, the temporary file's, and the slots'. -/
def syncDir (st : Storage) : Storage :=
  { st with
    journal := st.journal.sync
    tmp := { st.tmp with entry := st.tmp.entry.sync }
    slotDir := fun s => (st.slotDir s).sync }

/-- `create_dir_all` of a slot. -/
def createSlotDir (st : Storage) (s : Slot) : Storage :=
  if (st.slotDir s).value then st
  else { st with slotDir := fun t => if t = s then (st.slotDir t).write true else st.slotDir t }

def writeArtifact (st : Storage) (s : Slot) (bytes : Bytes) : Storage :=
  { st with artifact := fun t => if t = s then (st.artifact t).write [] bytes else st.artifact t }

def writeVersion (st : Storage) (s : Slot) (v : Contents String) : Storage :=
  { st with version := fun t => if t = s then (st.version t).write (.whole "") v else st.version t }

end Storage

def Req.completeOn : Req → Storage → Storage
  | .writeTmp p, st => st.writeTmp (.whole p)
  | .syncTmp, st => st.syncTmp
  | .renameJournal, st => st.renameJournal
  | .syncDir, st => st.syncDir
  | .createSlotDir s, st => st.createSlotDir s
  | .writeArtifact s bytes, st => st.writeArtifact s bytes
  | .writeVersion s v, st => st.writeVersion s (.whole v)
  | .createDir, st => st
  | .readJournal, st => st

def Req.tearOn : Req → Tear → Storage → Storage
  | .writeTmp _, .torn _, st => st.writeTmp .garbled
  | .writeArtifact s _, .torn left, st => st.writeArtifact s left
  | .writeVersion s _, .torn _, st => st.writeVersion s .garbled
  | _, _, st => st

def storage : Device Req Tear Storage where
  complete := Req.completeOn
  tear := Req.tearOn

theorem view_renameJournal (st : Storage) :
    st.renameJournal.view = Req.renameJournal.complete st.view := by
  unfold Storage.renameJournal
  by_cases h : st.tmp.entry.value = true
  · have ht : st.view.tmp = some st.tmp.contents.value := by simp [Storage.view, File.view, h]
    rw [if_pos h]
    simp only [Req.complete, ht]
    simp [Storage.view, File.view]
  · have ht : st.view.tmp = none := by simp [Storage.view, File.view, h]
    rw [if_neg h]
    simp only [Req.complete, ht]

theorem view_createSlotDir (st : Storage) (s : Slot) : (st.createSlotDir s).view = st.view := by
  unfold Storage.createSlotDir
  split <;> rfl

theorem view_syncTmp (st : Storage) : st.syncTmp.view = st.view := by
  unfold Storage.syncTmp
  split <;> rfl

theorem view_writeArtifact (st : Storage) (s : Slot) (bytes : Bytes) :
    (st.writeArtifact s bytes).view = st.view.setSlot s fun f => { f with artifact := some bytes } := by
  simp only [Storage.view, Storage.writeArtifact, Disk.setSlot, Disk.mk.injEq, true_and]
  funext t
  by_cases h : t = s <;> simp [h]

theorem view_writeVersion (st : Storage) (s : Slot) (v : Contents String) :
    (st.writeVersion s v).view = st.view.setSlot s fun f => { f with version := some v } := by
  simp only [Storage.view, Storage.writeVersion, Disk.setSlot, Disk.mk.injEq, true_and]
  funext t
  by_cases h : t = s <;> simp [h]

theorem view_writeTmp (st : Storage) (c : Contents PersistedOta) :
    (st.writeTmp c).view = { st.view with tmp := some c } := by
  simp [Storage.view, Storage.writeTmp]

/-- To a process the finer device is the device of `Ota.Manager`. -/
theorem storage_maps : storage.Maps device Storage.view where
  complete q st := by
    cases q with
    | createDir => rfl
    | readJournal => rfl
    | writeTmp p => exact view_writeTmp st _
    | syncTmp => exact view_syncTmp st
    | renameJournal => exact view_renameJournal st
    | syncDir => rfl
    | createSlotDir s => exact view_createSlotDir st s
    | writeArtifact s bytes => exact view_writeArtifact st s bytes
    | writeVersion s v => exact view_writeVersion st s _
  tear q t st := by
    cases t with
    | untouched => cases q <;> rfl
    | torn left =>
        cases q with
        | writeTmp p => exact view_writeTmp st _
        | writeArtifact s bytes => exact view_writeArtifact st s left
        | writeVersion s v => exact view_writeVersion st s _
        | _ => rfl

/-- The manager on storage that can lose writes. -/
def powered (crypto : Crypto) (key : Bytes) :
    System Call (Option OtaManager) Req Tear Storage (Except OtaError Reply) where
  dev := storage
  dead := none
  prog c w := callProg crypto key c ⟨w.mem, w.disk.view⟩

abbrev PoweredWorld := World (Option OtaManager) Storage
abbrev PoweredStep := Step Call (Option OtaManager) Req Tear Storage (Except OtaError Reply)

/-- **The layers agree**: a run on the finer device, seen by the process, is the run of `ota`. -/
theorem powered_run_view (crypto : Crypto) (key : Bytes) (slots : Slot → SlotDir) (sched : Schedule) :
    (ota crypto key).run sched (factory slots) =
      (((powered crypto key).run sched ⟨none, .factory slots⟩).1.map (Step.map Storage.view),
        ((powered crypto key).run sched ⟨none, .factory slots⟩).2.map Storage.view) := by
  have hstart : factory slots = World.map Storage.view ⟨none, .factory slots⟩ := by
    simp [Ota.factory, World.map, Storage.factory, Storage.view]
  rw [hstart]
  exact System.run_map (powered crypto key) (ota crypto key) storage_maps rfl (fun _ _ => rfl) sched _

/-! ## §2 Power loss. -/

/-- The places of the storage whose writes survive independently of each other. -/
inductive Place
  | tmpEntry
  | tmpContents
  | journalEntry
  | journalContents
  | slotEntry (s : Slot)
  | artifactEntry (s : Slot)
  | artifactContents (s : Slot)
  | versionEntry (s : Slot)
  | versionContents (s : Slot)
  deriving DecidableEq, Repr

/-- A power loss: which of the writes pending at each place, oldest first, are kept. -/
abbrev Loss := Place → Nat → Bool

/-- The disk after a power loss. Without its directory a slot has no files. -/
def Storage.lose (l : Loss) (st : Storage) : Disk where
  journal := (st.journal.lose (l .journalEntry)).map (Cell.lose (l .journalContents))
  tmp := st.tmp.lose (l .tmpEntry) (l .tmpContents)
  slots s :=
    if (st.slotDir s).lose (l (.slotEntry s)) then
      ⟨(st.artifact s).lose (l (.artifactEntry s)) (l (.artifactContents s)),
        (st.version s).lose (l (.versionEntry s)) (l (.versionContents s))⟩
    else ⟨none, none⟩

/-- The loss keeps the latest write to each of the five places of slot `t`. -/
structure Loss.KeepsSlot (l : Loss) (st : Storage) (t : Slot) : Prop where
  directory : (st.slotDir t).KeepsLast (l (.slotEntry t))
  artifactEntry : (st.artifact t).entry.KeepsLast (l (.artifactEntry t))
  artifact : (st.artifact t).contents.KeepsLast (l (.artifactContents t))
  versionEntry : (st.version t).entry.KeepsLast (l (.versionEntry t))
  version : (st.version t).contents.KeepsLast (l (.versionContents t))

/-- A slot with files in it, of which nothing that matters is lost. -/
theorem Loss.KeepsSlot.slot {l : Loss} {st : Storage} {t : Slot} (h : l.KeepsSlot st t)
    (hdir : (st.slotDir t).value = true) : (st.lose l).slots t = st.view.slots t := by
  show (if _ then _ else _ : SlotDir) = _
  rw [Cell.lose_eq_value h.directory, if_pos hdir, File.lose_eq_view h.artifactEntry h.artifact,
    File.lose_eq_view h.versionEntry h.version]
  rfl

/-! ## §3 The order of writes and syncs. -/

/-- Every sync that is issued succeeds; the other requests may report an error. -/
def syncsSucceed (q : Req) : Prop := q ≠ .syncTmp ∧ q ≠ .syncDir

def Req.writesTmp : Req → Bool
  | .writeTmp _ => true
  | _ => false

/-- What has been synced when a request is issued. -/
structure Ordered (st : Storage) (q : Req) : Prop where
  synced : q = .renameJournal → st.tmp.contents.pending = []
  settled : (q.slot ≠ none ∨ ∃ p, q = .writeTmp p ∧ p.state = .staged) → st.journal.pending = []
  inDir : ∀ s, (∃ bytes, q = .writeArtifact s bytes) ∨ (∃ v, q = .writeVersion s v) →
    (st.slotDir s).value = true

section Order

variable {α β : Type} {crypto : Crypto} {key : Bytes}

/-- The obligation on requests. -/
abbrev InOrder : Option OtaManager → Storage → Option OtaManager → Req → Prop := fun _ st _ q => Ordered st q

/-- A method whose requests are ordered, wherever it starts. -/
abbrev Orderly (x : OtaM α) : Prop :=
  ∀ m prev st, MethodFollows storage syncsSucceed InOrder x (fun _ _ _ => True) m prev st

/-- Requests with nothing to wait for. -/
theorem ordered_free {st : Storage} {q : Req} (hq : q ≠ .renameJournal) (hslot : q.slot = none)
    (htmp : q.writesTmp = false) : Ordered st q := by
  refine ⟨fun h => absurd h hq, ?_, ?_⟩
  · rintro (h | ⟨p, rfl, _⟩)
    · exact absurd hslot h
    · cases htmp
  · rintro s (⟨bytes, rfl⟩ | ⟨v, rfl⟩) <;> cases hslot

/-- A request for slot `s`. -/
theorem ordered_slot {st : Storage} {q : Req} {s : Slot} (hq : q.slot = some s)
    (hj : st.journal.pending = []) (hdir : q = .createSlotDir s ∨ (st.slotDir s).value = true) :
    Ordered st q := by
  refine ⟨?_, fun _ => hj, ?_⟩
  · rintro rfl
    cases hq
  · intro t h
    have ht : s = t := by
      rcases h with ⟨_, rfl⟩ | ⟨_, rfl⟩ <;> exact (Option.some.inj hq).symm
    subst ht
    rcases hdir with rfl | hdir
    · rcases h with ⟨_, h⟩ | ⟨_, h⟩ <;> cases h
    · exact hdir

theorem createSlotDir_journal (st : Storage) (s : Slot) : (st.createSlotDir s).journal = st.journal := by
  unfold Storage.createSlotDir
  split <;> rfl

theorem createSlotDir_value (st : Storage) (s : Slot) : ((st.createSlotDir s).slotDir s).value = true := by
  unfold Storage.createSlotDir
  split
  · assumption
  · simp

/-- `persist`: the rename finds the temporary file synced, and a `persist` that returns `Ok` has synced
the directory. -/
theorem method_persist_ordered
    {E : Option OtaManager → Storage → Except OtaError Unit × OtaManager → Prop} {m : OtaManager}
    {prev : Option OtaManager} {st : Storage} (hstaged : m.state = .staged → st.journal.pending = [])
    (hok : ∀ st', st'.journal.pending = [] → E (some m) st' (.ok (), m))
    (hcut : ∀ st', E (some m) st' (.error .io, m)) :
    MethodFollows storage syncsSucceed InOrder persist E m prev st := by
  have hwrite : Ordered st (.writeTmp m.record) := by
    refine ⟨nofun, ?_, ?_⟩
    · rintro (h | ⟨p, hp, hs⟩)
      · exact absurd rfl h
      · cases hp
        exact hstaged hs
    · rintro s (⟨_, h⟩ | ⟨_, h⟩) <;> cases h
  have hsynced : ((st.writeTmp (.whole m.record)).syncTmp).tmp.contents.pending = [] := by
    have hentry : (st.writeTmp (.whole m.record)).tmp.entry.value = true := File.write_entry _ _ _
    rw [Storage.syncTmp, if_pos hentry]
    rfl
  refine method_get ?_
  refine method_bind (method_requestOr hwrite ?_ (fun _ _ => hcut _))
  refine method_bind (method_request (ordered_free nofun rfl rfl) ?_ (fun h => absurd rfl h.1))
  refine method_bind (method_requestOr ⟨fun _ => hsynced, ?_, ?_⟩ ?_ (fun _ _ => hcut _))
  · rintro (h | ⟨_, h, _⟩)
    · exact absurd rfl h
    · cases h
  · rintro s (⟨_, h⟩ | ⟨_, h⟩) <;> cases h
  · refine method_bind (method_request (ordered_free nofun rfl rfl) ?_ (fun h => absurd rfl h.2))
    exact hok _ rfl

theorem orderly_bind {x : OtaM α} {f : α → OtaM β} (hx : Orderly x) (hf : ∀ a, Orderly (f a)) :
    Orderly (x >>= f) := by
  intro m prev st
  refine method_bind ((hx m prev st).mono ?_)
  rintro p st' ⟨r, m'⟩ _
  cases r with
  | ok a => exact hf a m' p st'
  | error e => trivial

theorem orderly_get : Orderly (get : OtaM OtaManager) := fun _ _ _ => trivial

theorem orderly_modify (f : OtaManager → OtaManager) : Orderly (modify f : OtaM PUnit) := fun _ _ _ => trivial

theorem orderly_pure (a : α) : Orderly (pure a : OtaM α) := fun _ _ _ => trivial

theorem orderly_throw (e : OtaError) : Orderly (throw e : OtaM α) := fun _ _ _ => trivial

theorem orderly_setState {s : OtaState} (hs : s ≠ .staged) : Orderly (setState s) := by
  intro m prev st
  exact method_bind (x := modify _) (method_persist_ordered (fun h => absurd h hs) (fun _ _ => trivial)
    (fun _ => trivial))

theorem startDownload_orderly (manifest : OtaManifest) : Orderly (startDownload manifest) := by
  refine orderly_bind orderly_get fun m => ?_
  cases m.startGate manifest with
  | error e => exact orderly_throw e
  | ok go =>
      cases go with
      | false => exact orderly_pure false
      | true =>
          exact orderly_bind (orderly_modify _) fun _ => orderly_bind (orderly_setState nofun) fun _ =>
            orderly_pure true

theorem ingestChunk_orderly (chunk : Bytes) (manifest : OtaManifest) :
    Orderly (ingestChunk chunk manifest) := by
  refine orderly_bind orderly_get fun m => ?_
  show Orderly (if m.state ≠ .downloading then _ else _)
  split
  · exact orderly_throw _
  · show Orderly (if chunk.length % 2 ^ 64 > _ then _ else _)
    split
    · exact orderly_throw _
    · exact fun _ _ _ => trivial

theorem markRebootPending_orderly : Orderly markRebootPending := by
  refine orderly_bind orderly_get fun m => ?_
  show Orderly (if m.state ≠ .staged then _ else _)
  split
  · exact orderly_throw _
  · exact orderly_setState nofun

theorem simulateReboot_orderly : Orderly simulateReboot := by
  refine orderly_bind orderly_get fun m => ?_
  show Orderly (if m.state ≠ .rebootPending then _ else _)
  split
  · exact orderly_throw _
  · exact orderly_bind (orderly_setState nofun) fun _ => orderly_setState nofun

theorem rollback_orderly : Orderly rollback := by
  refine orderly_bind orderly_get fun m => ?_
  show Orderly (if ¬ (m.state = .rollbackPending ∨ m.state = .healthChecking ∨ m.state = .failed)
    then _ else _)
  split
  · exact orderly_throw _
  · exact orderly_bind (orderly_modify _) fun _ => orderly_setState nofun

theorem healthCheck_orderly (healthy : Bool) (detail : String) : Orderly (healthCheck healthy detail) := by
  refine orderly_bind orderly_get fun m => ?_
  show Orderly (if m.state ≠ .healthChecking then _ else _)
  split
  · exact orderly_throw _
  · cases healthy with
    | true => exact orderly_bind (orderly_modify _) fun _ => orderly_setState nofun
    | false =>
        exact orderly_bind (orderly_modify _) fun _ => orderly_bind (orderly_setState nofun) fun _ =>
          rollback_orderly

theorem recover_orderly : Orderly recover := by
  refine orderly_bind orderly_get fun m => ?_
  have hreturn : Orderly (do return (← get).state : OtaM OtaState) :=
    orderly_bind orderly_get fun m => orderly_pure m.state
  have hrecheck : Orderly (do setState .healthChecking; return (← get).state) :=
    orderly_bind (orderly_setState nofun) fun _ => hreturn
  have hrestart : Orderly
      (do
        modify fun m => { m with candidateBytes := none }
        setState .idle
        return (← get).state) :=
    orderly_bind (orderly_modify _) fun _ => orderly_bind (orderly_setState nofun) fun _ => hreturn
  cases hm : m.state with
  | downloading => exact hrestart
  | verifying => exact hrestart
  | rebootPending => exact hrecheck
  | bootingCandidate => exact hrecheck
  | healthChecking => exact hrecheck
  | _ => exact hreturn

/-- The staging tail of `verify`, with the journal settled. -/
theorem stage_orderly {slot : Slot} {bytes : Bytes} {v : String} {m : OtaManager}
    {prev : Option OtaManager} {st : Storage} (hj : st.journal.pending = []) :
    MethodFollows storage syncsSucceed InOrder
      (do
        tryRequest (.createSlotDir slot)
        tryRequest (.writeArtifact slot bytes)
        tryRequest (.writeVersion slot v)
        setState .staged)
      (fun _ _ _ => True) m prev st := by
  have hj₁ : (st.createSlotDir slot).journal.pending = [] := by
    rw [createSlotDir_journal]
    exact hj
  have hdir := createSlotDir_value st slot
  refine method_bind (method_requestOr (ordered_slot rfl hj (.inl rfl)) ?_ fun _ _ => trivial)
  refine method_bind (method_requestOr (ordered_slot rfl hj₁ (.inr hdir)) ?_ fun _ _ => trivial)
  refine method_bind (method_requestOr (ordered_slot rfl hj₁ (.inr hdir)) ?_ fun _ _ => trivial)
  exact method_bind (x := modify _) (method_persist_ordered (fun _ => hj₁) (fun _ _ => trivial)
    (fun _ => trivial))

theorem verify_orderly (crypto : Crypto) (manifest : OtaManifest) : Orderly (verify crypto manifest) := by
  intro m prev st
  refine method_get ?_
  show MethodFollows storage syncsSucceed InOrder (if m.state ≠ .downloading then _ else _) _ m prev st
  split
  · trivial
  -- what the `Verifying` write leaves: a journal with nothing pending
  refine method_bind (x := setState _) (method_bind (x := modify _)
    (method_persist_ordered nofun (fun st' hj => ?_) (fun _ => trivial)))
  have hreject : ∀ (why : String) (e : OtaError), Orderly
      (do
        modify fun m => { m with lastError := some why }
        setState .failed
        throw e : OtaM Unit) := fun _ e =>
    orderly_bind (orderly_modify _) fun _ => orderly_bind (orderly_setState nofun) fun _ => orderly_throw e
  show MethodFollows storage syncsSucceed InOrder
    (if hexEncode (crypto.sha256 m.buffered) ≠ _ then _ else _) _ _ _ st'
  split
  · exact hreject _ _ _ _ _
  · cases checkSignature crypto m.verifyingKey m.buffered manifest with
    | error e => trivial
    | ok accepted =>
        cases accepted with
        | false => exact hreject _ _ _ _ _
        | true => exact stage_orderly hj

theorem onManager_ordered {x : OtaM α} {reply : α → Reply} (hx : Orderly x) (w : PoweredWorld) :
    (onManager x reply ⟨w.mem, w.disk.view⟩).Follows storage syncsSucceed InOrder (fun _ _ _ => True)
      w.mem w.disk := by
  unfold onManager
  cases w.mem with
  | none => trivial
  | some a => exact Prog.follows_bind.mpr (hx a (some a) w.disk)

theorem openManager_ordered {prev : Option OtaManager} {st : Storage}
    (journal : Option (Contents PersistedOta)) :
    (openManager key journal).Follows storage syncsSucceed InOrder (fun _ _ _ => True) prev st := by
  have hfree : ∀ (st : Storage) (q : Req), q = .createDir ∨ q = .readJournal → Ordered st q := by
    rintro st q (rfl | rfl) <;> exact ordered_free nofun rfl rfl
  refine ⟨hfree _ _ (.inl rfl), ?_, fun _ _ => trivial⟩
  cases journal with
  | some file =>
      refine ⟨hfree _ _ (.inr rfl), ?_, fun _ _ => trivial⟩
      cases file <;> trivial
  | none =>
      refine Prog.follows_bind.mpr (method_persist_ordered nofun ?_ ?_)
      · exact fun _ _ => trivial
      · exact fun _ => trivial

theorem open_ordered (w : PoweredWorld) :
    ((powered crypto key).prog .open w).Follows storage syncsSucceed InOrder (fun _ _ _ => True)
      w.mem w.disk := by
  refine Prog.follows_bind.mpr ((openManager_ordered _).mono ?_)
  rintro p st' (e | m) _ <;> trivial

/-- Every request of every call is ordered. -/
theorem powered_ordered (crypto : Crypto) (key : Bytes) (c : Call) (w : PoweredWorld) :
    ((powered crypto key).prog c w).Follows storage syncsSucceed InOrder (fun _ _ _ => True)
      w.mem w.disk := by
  cases c with
  | «open» => exact open_ordered w
  | startDownload manifest => exact onManager_ordered (startDownload_orderly manifest) w
  | ingestChunk chunk manifest => exact onManager_ordered (ingestChunk_orderly chunk manifest) w
  | verify manifest => exact onManager_ordered (verify_orderly crypto manifest) w
  | markRebootPending => exact onManager_ordered markRebootPending_orderly w
  | simulateReboot => exact onManager_ordered simulateReboot_orderly w
  | healthCheck healthy detail => exact onManager_ordered (healthCheck_orderly healthy detail) w
  | rollback => exact onManager_ordered rollback_orderly w
  | recover => exact onManager_ordered recover_orderly w
  | kill => trivial

end Order

/-- What a request of the powered system does: a request of `ota` on what the process sees, in order. -/
abbrev PoweredMicro (crypto : Crypto) (key : Bytes) (c : Call) (w₀ : PoweredWorld)
    (m : Option OtaManager) (st : Storage) (m' : Option OtaManager) (q : Req) : Prop :=
  Micro crypto key c (w₀.map Storage.view) m st.view m' q ∧ Ordered st q

abbrev PoweredReturn (key : Bytes) (c : Call) (w₀ : PoweredWorld) (m : Option OtaManager) (st : Storage)
    (r : Except OtaError Reply × Option OtaManager) : Prop :=
  Return key syncsSucceed c (w₀.map Storage.view) m st.view r

theorem powered_follows (crypto : Crypto) (key : Bytes) (c : Call) (w : PoweredWorld) :
    ((powered crypto key).prog c w).Follows (powered crypto key).dev syncsSucceed
      (PoweredMicro crypto key c w) (PoweredReturn key c w) w.mem w.disk := by
  have hview := ota_follows crypto key syncsSucceed c (w.map Storage.view)
  exact ((hview.pull storage_maps).and (powered_ordered crypto key c w)).mono fun _ _ _ h => h.1

/-! ## §4 What may be under the journal's name, and the files it stands for. -/

/-- Slot, bytes and version of a `verify` that has written its files and goes on to write `Staged`. -/
def stagedBy (s : PoweredStep) : Option (Slot × Bytes × String) :=
  match s.call, s.event with
  | .verify manifest, .io _ (some b) (.writeTmp p) _ _ =>
      if p.state = .staged then some (b.stagingSlot, b.buffered, manifest.version) else none
  | _, _ => none

/-- ... of the last one. -/
def lastStaged (g : Option (Slot × Bytes × String)) (s : PoweredStep) : Option (Slot × Bytes × String) :=
  (stagedBy s).or g

/-- A record and the files of the last staged candidate. -/
structure Intact (g : Option (Slot × Bytes × String)) (slots : Slot → SlotDir) (p : PersistedOta) :
    Prop where
  candidate : p.state.resting = false → p.candidateSlot = some p.activeSlot.other
  bootable : p.state.bootable = true → ∃ bytes v, g = some (p.activeSlot.other, bytes, v) ∧
    slots p.activeSlot.other = ⟨some bytes, some (.whole v)⟩
  committed : p.state = .committed → ∃ bytes v, g = some (p.activeSlot, bytes, v) ∧
    slots p.activeSlot = ⟨some bytes, some (.whole v)⟩

/-- Every record that may be under the journal's name after a power loss is complete and stands for
intact files, and so do the manager's fields. -/
structure Shelved (g : Option (Slot × Bytes × String)) (m : Option OtaManager) (st : Storage) : Prop where
  files : ∀ file, some file ∈ st.journal.possible → file.pending = []
  records : ∀ file p, some file ∈ st.journal.possible → file.value = .whole p →
    Intact g st.view.slots p
  memory : ∀ a, m = some a → Intact g st.view.slots a.record
  dirs : ∀ s, (st.slotDir s).value = true ∨ st.view.slots s = ⟨none, none⟩

section Shelf

variable {crypto : Crypto} {key : Bytes} {g g' : Option (Slot × Bytes × String)}
  {m m' : Option OtaManager} {st st' : Storage} {c : Call} {w₀ : PoweredWorld} {q : Req} {f : Fault Tear}

theorem stagedBy_other (h : ∀ p, q = .writeTmp p → p.state ≠ .staged) :
    stagedBy ⟨c, w₀, .io m m' q f st⟩ = none := by
  unfold stagedBy
  split
  · rename_i p _ _ hio
    injection hio with _ _ hq _ _
    exact if_neg (h _ hq)
  · rfl

theorem lastStaged_other (h : ∀ p, q = .writeTmp p → p.state ≠ .staged) :
    lastStaged g ⟨c, w₀, .io m m' q f st⟩ = g := by
  rw [lastStaged, stagedBy_other h]
  rfl

theorem lastStaged_ret {b : Except OtaError Reply} : lastStaged g ⟨c, w₀, .ret m m' b st⟩ = g := by
  have h : stagedBy ⟨c, w₀, .ret m m' b st⟩ = none := by cases c <;> rfl
  rw [lastStaged, h]
  rfl

/-- A record that is being verified stands for no files yet. -/
theorem Intact.of_verifying {slots slots' : Slot → SlotDir} {p : PersistedOta} (h : Intact g slots p)
    (hs : p.state = .verifying) : Intact g' slots' p := by
  refine ⟨h.candidate, ?_, ?_⟩
  · intro hb
    rw [hs] at hb
    cases hb
  · intro hc
    rw [hs] at hc
    cases hc

/-- What is assigned without staging keeps the files it stands for. -/
theorem Assign.intact {w : OtaWorld} {a b : OtaManager} {d : Disk} (h : Assign crypto w c a d b)
    (hb : b.state ≠ .staged) (ha : Intact g d.slots a.record) : Intact g d.slots b.record where
  candidate := h.candidate ha.candidate
  bootable hboot := by
    rcases h.bootable_cases hboot with ⟨_, _, _, rfl⟩ | ⟨hfrom, hact, _⟩
    · exact absurd rfl hb
    · rw [OtaManager.record_activeSlot, hact]
      exact ha.bootable hfrom
  committed hcommit := by
    cases h with
    | commit _ hs =>
        have hboot : a.record.state.bootable = true := by
          rw [OtaManager.record_state, hs]
          rfl
        have hcand : a.candidateSlot = some a.activeSlot.other := ha.candidate (by
          rw [OtaManager.record_state, hs]
          rfl)
        have hslot : a.commit.record.activeSlot = a.activeSlot.other := by
          show a.candidateSlot.getD a.activeSlot.other = _
          rw [hcand]
          rfl
        rw [hslot]
        exact ha.bootable hboot
    | _ => cases hcommit

/-- Staging stands for the files that `verify` has just written. -/
theorem Staging.intact {w : OtaWorld} {a : OtaManager} {d : Disk} {manifest : OtaManifest}
    (h : Staging crypto c w a d manifest)
    (hslot : d.slots a.stagingSlot = ⟨some a.buffered, some (.whole manifest.version)⟩)
    (ha : Intact g d.slots a.record) :
    Intact (some (a.stagingSlot, a.buffered, manifest.version)) d.slots
      { a with state := .staged }.record where
  candidate _ := by
    refine ha.candidate ?_
    rw [OtaManager.record_state, h.state_eq]
    rfl
  bootable _ := by
    have hother : a.stagingSlot = a.activeSlot.other := h.slot_eq ha.candidate
    refine ⟨a.buffered, manifest.version, by rw [hother]; rfl, ?_⟩
    show d.slots a.activeSlot.other = _
    rw [← hother]
    exact hslot
  committed hc := by cases hc

/-- While the journal has nothing pending, only the record a process sees may survive. -/
theorem possible_record {p₀ : PersistedOta} (hj : st.journal.pending = [])
    (hview : st.view.journal = some (.whole p₀)) {file : Cell (Contents PersistedOta)} {p : PersistedOta}
    (hfile : some file ∈ st.journal.possible) (hp : file.value = .whole p) : p = p₀ := by
  rw [Cell.possible_of_settled hj, List.mem_singleton] at hfile
  have hsame : st.view.journal = some file.value := by
    show st.journal.value.map Cell.value = _
    rw [← hfile]
    rfl
  rw [hview, hp] at hsame
  cases hsame
  rfl

theorem Shelved.of_same (h : Shelved g m st) (hj : st'.journal = st.journal)
    (hdir : ∀ s, (st'.slotDir s).value = (st.slotDir s).value) (hs : st'.view.slots = st.view.slots) :
    Shelved g m st' := by
  refine ⟨?_, ?_, ?_, ?_⟩
  · rw [hj]
    exact h.files
  · rw [hj, hs]
    exact h.records
  · rw [hs]
    exact h.memory
  · intro s
    rw [hdir, hs]
    exact h.dirs s

theorem Shelved.gone (h : Shelved g m st) : Shelved g none st :=
  ⟨h.files, h.records, fun _ ha => (by cases ha), h.dirs⟩

theorem intact_initial {slots : Slot → SlotDir} : Intact g slots (OtaManager.initial key).record :=
  ⟨nofun, nofun, nofun⟩

/-- The write of `Staged`: nothing that may survive stands for the old candidate. -/
theorem Shelved.at_staged {w : OtaWorld} {a b : OtaManager} (h : Shelved g (some a) st)
    (hassign : Assign crypto w c a st.view b) (hb : b.state = .staged) (hj : st.journal.pending = []) :
    Shelved (lastStaged g ⟨c, w₀, .io (some a) (some b) (.writeTmp b.record) f st⟩) (some b) st := by
  have ha := h.memory a rfl
  cases hassign with
  | @staged _ _ manifest hst hslot =>
      have hg : lastStaged g ⟨.verify manifest, w₀, .io (some a) (some { a with state := .staged })
          (.writeTmp { a with state := .staged }.record) f st⟩ =
          some (a.stagingSlot, a.buffered, manifest.version) := rfl
      rw [hg]
      refine ⟨h.files, ?_, ?_, h.dirs⟩
      · intro file p hfile hp
        have hpa : p = a.record := possible_record hj hst.journaled hfile hp
        rw [hpa]
        exact ha.of_verifying hst.state_eq
      · rintro _ ⟨⟩
        exact hst.intact hslot ha
  | _ => cases hb

/-- The fields a request is issued with, and the candidate they stand for. -/
theorem Shelved.at_request (h : Shelved g m st) (hq : PoweredMicro crypto key c w₀ m st m' q) :
    Shelved (lastStaged g ⟨c, w₀, .io m m' q f st⟩) m' st := by
  obtain ⟨hmicro, hordered⟩ := hq
  -- only the write of `Staged` names a new candidate
  have hsame : (∀ p, q = .writeTmp p → p.state ≠ .staged) → Shelved g m' st →
      Shelved (lastStaged g ⟨c, w₀, .io m m' q f st⟩) m' st := by
    intro hne hs
    rw [lastStaged_other hne]
    exact hs
  have hother : q.writesTmp = false → Shelved g m' st →
      Shelved (lastStaged g ⟨c, w₀, .io m m' q f st⟩) m' st := by
    intro hne
    refine hsame ?_
    rintro p rfl
    cases hne
  cases hmicro with
  | createDir _ => exact hother rfl h.gone
  | writeInitial _ _ =>
      refine hsame ?_ ⟨h.files, h.records, ?_, h.dirs⟩
      · rintro _ ⟨⟩
        exact nofun
      · rintro _ ⟨⟩
        exact intact_initial
  | @writeTmp a _ b hassign =>
      by_cases hb : b.state = .staged
      · exact h.at_staged hassign hb (hordered.settled (.inr ⟨_, rfl, hb⟩))
      · refine hsame ?_ ⟨h.files, h.records, ?_, h.dirs⟩
        · rintro _ ⟨⟩
          exact hb
        · rintro _ ⟨⟩
          exact hassign.intact hb (h.memory a rfl)
  | readJournal _ => exact hother rfl h
  | renameInitial _ _ _ => exact hother rfl h
  | syncTmp => exact hother rfl h
  | rename _ _ _ _ => exact hother rfl h
  | syncDir => exact hother rfl h
  | createSlotDir _ => exact hother rfl h
  | writeArtifact _ => exact hother rfl h
  | writeVersion _ _ => exact hother rfl h

theorem storage_after_view : (storage.after q st f).view = device.after q st.view f :=
  storage_maps.after q st f

/-- Only a completed rename or directory sync changes what may be under the journal's name. -/
theorem storage_after_journal (h : (q ≠ .renameJournal ∧ q ≠ .syncDir) ∨ f ≠ .ok) :
    (storage.after q st f).journal = st.journal := by
  cases f with
  | ok =>
      rcases h with ⟨hrename, hsync⟩ | hf
      · cases q with
        | renameJournal => exact absurd rfl hrename
        | syncDir => exact absurd rfl hsync
        | createSlotDir s => exact createSlotDir_journal st s
        | syncTmp =>
            show st.syncTmp.journal = st.journal
            unfold Storage.syncTmp
            split <;> rfl
        | _ => rfl
      · exact absurd rfl hf
  | fail t => cases q <;> cases t <;> rfl
  | die t => cases q <;> cases t <;> rfl

/-- A slot directory, once created, is seen by every process. -/
theorem storage_after_slotDir {s : Slot} (h : q ≠ .createSlotDir s ∨ f ≠ .ok) :
    ((storage.after q st f).slotDir s).value = (st.slotDir s).value := by
  cases f with
  | ok =>
      rcases h with hq | hf
      · cases q with
        | createSlotDir t =>
            have hne : s ≠ t := fun hst => hq (by rw [hst])
            show ((st.createSlotDir t).slotDir s).value = _
            unfold Storage.createSlotDir
            split
            · rfl
            · simp [hne]
        | syncTmp =>
            show (st.syncTmp.slotDir s).value = _
            unfold Storage.syncTmp
            split <;> rfl
        | renameJournal =>
            show (st.renameJournal.slotDir s).value = _
            unfold Storage.renameJournal
            split <;> rfl
        | _ => rfl
      · exact absurd rfl hf
  | fail t => cases q <;> cases t <;> rfl
  | die t => cases q <;> cases t <;> rfl

/-- A request that leaves the journal's entry and the slots alone. -/
theorem Shelved.quiet (h : Shelved g m st) (hj : (q ≠ .renameJournal ∧ q ≠ .syncDir) ∨ f ≠ .ok)
    (hslot : q.slot = none) : Shelved g m (storage.after q st f) := by
  refine h.of_same (storage_after_journal hj) ?_ ?_
  · intro s
    refine storage_after_slotDir (.inl ?_)
    rintro rfl
    cases hslot
  · rw [storage_after_view]
    exact after_slots hslot

/-- A completed rename of the fields of the live manager: the file it puts under the journal's name is
synced. -/
theorem Shelved.rename {b : OtaManager} (h : Shelved g (some b) st) (ht : st.view.tmp = some (.whole b.record))
    (hsynced : st.tmp.contents.pending = []) :
    Shelved g (some b) (storage.after .renameJournal st .ok) := by
  obtain ⟨hentry, hvalue⟩ := File.view_eq_some ht
  have hst : storage.after .renameJournal st .ok = st.renameJournal := rfl
  have hslots : st.renameJournal.view.slots = st.view.slots := by
    rw [← hst, storage_after_view]
    exact after_slots rfl
  have hjournal : st.renameJournal.journal = st.journal.write (some st.tmp.contents) := by
    rw [Storage.renameJournal, if_pos hentry]
  rw [hst]
  refine ⟨?_, ?_, ?_, ?_⟩
  · intro file hfile
    rw [hjournal, Cell.mem_possible_write] at hfile
    rcases hfile with hfile | hfile
    · exact h.files file hfile
    · cases hfile
      exact hsynced
  · intro file p hfile hp
    rw [hslots]
    rw [hjournal, Cell.mem_possible_write] at hfile
    rcases hfile with hfile | hfile
    · exact h.records file p hfile hp
    · cases hfile
      rw [hvalue] at hp
      cases hp
      exact h.memory b rfl
  · rw [hslots]
    exact h.memory
  · intro s
    have hdir : (st.renameJournal.slotDir s).value = (st.slotDir s).value := by
      rw [Storage.renameJournal, if_pos hentry]
    rw [hslots, hdir]
    exact h.dirs s

/-- A completed sync of the directory: what a process sees is all that may survive. -/
theorem Shelved.syncDir (h : Shelved g m st) : Shelved g m (storage.after .syncDir st .ok) := by
  have hpossible : ∀ file, some file ∈ st.syncDir.journal.possible → some file ∈ st.journal.possible := by
    intro file hfile
    have hvalue : some file = st.journal.value := List.mem_singleton.mp hfile
    rw [hvalue]
    exact Cell.value_possible _
  exact ⟨fun file hfile => h.files file (hpossible file hfile),
    fun file p hfile => h.records file p (hpossible file hfile), h.memory, h.dirs⟩

/-- A slot has files only in a directory. -/
theorem slot_write_dir {s : Slot} (hslot : q.slot = some s) (hordered : Ordered st q)
    (h : (st.slotDir s).value = true ∨ st.view.slots s = ⟨none, none⟩) :
    ((storage.after q st f).slotDir s).value = true ∨
      (storage.after q st f).view.slots s = ⟨none, none⟩ := by
  cases q with
  | createSlotDir t =>
      cases hslot
      cases f with
      | ok => exact .inl (createSlotDir_value st s)
      | fail t => cases t <;> exact h
      | die t => cases t <;> exact h
  | writeArtifact t bytes =>
      cases hslot
      left
      rw [storage_after_slotDir (.inl (by simp))]
      exact hordered.inDir s (.inl ⟨bytes, rfl⟩)
  | writeVersion t v =>
      cases hslot
      left
      rw [storage_after_slotDir (.inl (by simp))]
      exact hordered.inDir s (.inr ⟨v, rfl⟩)
  | _ => cases hslot

/-- A staging write. Nothing that may survive it stands for files, and its directory is there. -/
theorem Shelved.slot_write {w : OtaWorld} {a : OtaManager} {manifest : OtaManifest}
    (h : Shelved g (some a) st) (hst : Staging crypto c w a st.view manifest)
    (hslot : q.slot = some a.stagingSlot) (hordered : Ordered st q) :
    Shelved g (some a) (storage.after q st f) := by
  have hrename : q ≠ .renameJournal ∧ q ≠ .syncDir := by
    refine ⟨?_, ?_⟩ <;> rintro rfl <;> cases hslot
  have hsettled : st.journal.pending = [] := hordered.settled (.inl (by rw [hslot]; exact nofun))
  have hj : (storage.after q st f).journal = st.journal := storage_after_journal (.inl hrename)
  have hverifying : Intact g (storage.after q st f).view.slots a.record :=
    (h.memory a rfl).of_verifying hst.state_eq
  refine ⟨?_, ?_, ?_, ?_⟩
  · rw [hj]
    exact h.files
  · intro file p hfile hp
    rw [hj] at hfile
    rw [possible_record hsettled hst.journaled hfile hp]
    exact hverifying
  · rintro _ ⟨⟩
    exact hverifying
  · intro s
    by_cases hs : s = a.stagingSlot
    · subst hs
      exact slot_write_dir hslot hordered (h.dirs _)
    · have hq : q ≠ .createSlotDir s := by
        rintro rfl
        exact hs (Option.some.inj hslot)
      rw [storage_after_slotDir (.inl hq), storage_after_view, after_slots_ne hslot hs]
      exact h.dirs s

/-- **One request, whatever comes of it.** -/
theorem Shelved.after_request (h : Shelved g m st) (hq : PoweredMicro crypto key c w₀ m st m' q) :
    Shelved (lastStaged g ⟨c, w₀, .io m m' q f st⟩) m' (storage.after q st f) := by
  have hat := h.at_request (f := f) hq
  obtain ⟨hmicro, hordered⟩ := hq
  have hrename : ∀ b : OtaManager, q = .renameJournal → m' = some b →
      st.view.tmp = some (.whole b.record) →
      Shelved (lastStaged g ⟨c, w₀, .io m m' q f st⟩) m' (storage.after q st f) := by
    rintro b rfl rfl ht
    by_cases hf : f = .ok
    · subst hf
      exact hat.rename ht (hordered.synced rfl)
    · exact hat.quiet (.inr hf) rfl
  cases hmicro with
  | createDir _ => exact hat.quiet (.inl ⟨nofun, nofun⟩) rfl
  | readJournal _ => exact hat.quiet (.inl ⟨nofun, nofun⟩) rfl
  | writeInitial _ _ => exact hat.quiet (.inl ⟨nofun, nofun⟩) rfl
  | renameInitial _ _ ht => exact hrename _ rfl rfl ht
  | writeTmp _ => exact hat.quiet (.inl ⟨nofun, nofun⟩) rfl
  | syncTmp => exact hat.quiet (.inl ⟨nofun, nofun⟩) rfl
  | rename _ _ _ ht => exact hrename _ rfl rfl ht
  | syncDir =>
      by_cases hf : f = .ok
      · subst hf
        exact hat.syncDir
      · exact hat.quiet (.inr hf) rfl
  | createSlotDir hst => exact hat.slot_write hst rfl hordered
  | writeArtifact hst => exact hat.slot_write hst rfl hordered
  | writeVersion hst _ => exact hat.slot_write hst rfl hordered

/-- A return: `open` takes its fields from the record it sees, and nothing else changes a recorded
field. -/
theorem Shelved.after_return {b : Except OtaError Reply} (h : Shelved g m st)
    (hret : PoweredReturn key c w₀ m st (b, m')) : Shelved g m' st := by
  cases hret with
  | noManager _ => exact h
  | killed _ => exact h.gone
  | openFailed _ => exact h.gone
  | openedFresh _ _ => exact h
  | @opened _ p _ hj =>
      refine ⟨h.files, h.records, ?_, h.dirs⟩
      rintro _ ⟨⟩
      obtain ⟨file, hfile, hp⟩ := Option.map_eq_some_iff.mp hj
      refine h.records file p ?_ hp
      rw [← hfile]
      exact Cell.value_possible _
  | @ingested a _ _ _ _ _ _ =>
      refine ⟨h.files, h.records, ?_, h.dirs⟩
      rintro _ ⟨⟩
      exact h.memory a rfl
  | settled _ => exact h
  | cut _ => exact h

end Shelf

def shelvedInvariant (crypto : Crypto) (key : Bytes) :
    Invariant (powered crypto key) syncsSucceed (fun _ => True) (PoweredMicro crypto key) (PoweredReturn key)
      (Option (Slot × Bytes × String)) where
  upd := lastStaged
  At g w := Shelved g w.mem w.disk
  In g _ _ w := Shelved g w.mem w.disk
  Good g s :=
    Shelved (lastStaged g s) s.event.before.mem s.event.before.disk ∧
      Shelved (lastStaged g s) (s.event.after storage none).mem (s.event.after storage none).disk
  enter h := h
  live {g c w₀ m st m' q f} inv h _ hf _ := by
    have hafter := inv.after_request (f := f) h
    refine ⟨⟨inv.at_request h, ?_⟩, hafter⟩
    cases f with
    | ok => exact hafter
    | fail t => exact hafter
    | die t => exact absurd rfl (hf t)
  die {g c w₀ m st m' q t} inv h _ := by
    have hafter := (inv.after_request (f := .die t) h).gone
    exact ⟨⟨inv.at_request h, hafter⟩, hafter⟩
  ret {g c w₀ m st b m'} inv h _ := by
    have hafter := inv.after_return h
    rw [lastStaged_ret]
    exact ⟨⟨hafter, hafter⟩, hafter⟩

theorem shelved_factory (slots : Slot → SlotDir) : Shelved none none (.factory slots) where
  files file h := by cases List.mem_singleton.mp h
  records file p h := by cases List.mem_singleton.mp h
  memory a ha := by cases ha
  dirs s := by
    by_cases h : ((Storage.factory slots).slotDir s).value = true
    · exact .inl h
    · right
      have hnone : (slots s).artifact = none ∧ (slots s).version = none := by
        simpa [Storage.factory] using h
      simp [Storage.view, Storage.factory, hnone]

/-! ## §5 Power loss. -/

/-- The slot a record boots from: the candidate's while it can be booted, the active one once it is
committed. -/
def PersistedOta.BootsFrom (p : PersistedOta) (t : Slot) : Prop :=
  (p.state.bootable = true ∧ p.candidateSlot = some t) ∨ (p.state = .committed ∧ p.activeSlot = t)

/-- The slot that the journal boots from holds exactly what `verify` wrote. -/
def HoldsStaged (g : Option (Slot × Bytes × String)) (d : Disk) : Prop :=
  ∀ p t, d.journal = some (.whole p) → p.BootsFrom t →
    ∃ bytes v, g = some (t, bytes, v) ∧ d.slots t = ⟨some bytes, some (.whole v)⟩

theorem Intact.bootsFrom {g : Option (Slot × Bytes × String)} {slots : Slot → SlotDir} {p : PersistedOta}
    {t : Slot} (h : Intact g slots p) (ht : p.BootsFrom t) :
    ∃ bytes v, g = some (t, bytes, v) ∧ slots t = ⟨some bytes, some (.whole v)⟩ := by
  rcases ht with ⟨hboot, hcand⟩ | ⟨hcommit, rfl⟩
  · have hbusy : p.state.resting = false := by
      revert hboot
      cases p.state <;> decide
    rw [h.candidate hbusy] at hcand
    cases hcand
    exact h.bootable hboot
  · exact h.committed hcommit

theorem Shelved.holdsStaged {g : Option (Slot × Bytes × String)} {m : Option OtaManager} {st : Storage}
    {l : Loss} (h : Shelved g m st)
    (hkeep : ∀ p t, (st.lose l).journal = some (.whole p) → p.BootsFrom t → l.KeepsSlot st t) :
    HoldsStaged g (st.lose l) := by
  intro p t hp ht
  obtain ⟨file, hfile, hlose⟩ := Option.map_eq_some_iff.mp hp
  have hpossible : some file ∈ st.journal.possible := by
    rw [← hfile]
    exact Cell.lose_possible _ _
  -- the record was complete when it was renamed, so nothing of it can be lost
  rw [Cell.lose_of_settled (h.files file hpossible)] at hlose
  obtain ⟨bytes, v, hg, hslot⟩ := (h.records file p hpossible hlose).bootsFrom ht
  have hdir : (st.slotDir t).value = true := by
    refine (h.dirs t).resolve_right ?_
    rw [hslot]
    exact nofun
  exact ⟨bytes, v, hg, ((hkeep p t hp ht).slot hdir).trans hslot⟩

/-- **Power loss.** Take any run in which the syncs that are issued succeed (any other request may fail,
tear or be the last of its process) and cut the power before or after any of its requests, losing any
selection of the writes that are not durable. If the latest write to each of the five places of the slot
that the surviving journal boots from is kept, then `artifact.bin` and `version` there are exactly what
the last `verify` that staged wrote. -/
theorem staged_survives_power_loss (crypto : Crypto) (key : Bytes) (slots : Slot → SlotDir)
    (sched : Schedule)
    (hsyncs : ∀ s ∈ ((powered crypto key).run sched ⟨none, .factory slots⟩).1, FailsOnly syncsSucceed s)
    (pre post : List PoweredStep) (s : PoweredStep)
    (hrun : ((powered crypto key).run sched ⟨none, .factory slots⟩).1 = pre ++ s :: post) (st : Storage)
    (hst : st = s.event.before.disk ∨ st = (s.event.after storage none).disk) (l : Loss)
    (hkeep : ∀ p t, (st.lose l).journal = some (.whole p) → p.BootsFrom t → l.KeepsSlot st t) :
    HoldsStaged ((pre ++ [s]).foldl lastStaged none) (st.lose l) := by
  have hstart : (shelvedInvariant crypto key).At none ⟨none, .factory slots⟩ := shelved_factory slots
  have halong := ((shelvedInvariant crypto key).along_run (powered_follows crypto key) sched hstart
    (fun s hs => ⟨hsyncs s hs, trivial⟩)).1
  rw [hrun] at halong
  obtain ⟨hbefore, hafter⟩ := halong.at_split
  rw [List.foldl_append]
  rcases hst with rfl | rfl
  · exact hbefore.holdsStaged hkeep
  · exact hafter.holdsStaged hkeep

/-- Open and one update with artifact `[1]`, without faults; its `verify` returns at moment 23. -/
def poweredUpdate : List PoweredStep :=
  ((powered tabulated releaseKey).run ((.open, []) :: fullUpdate [1] "1.0.0") ⟨none, .factory emptySlots⟩).1

/-- The record it journals then. -/
def stagedRecord : PersistedOta where
  state := .staged
  activeSlot := .A
  candidateSlot := some .B
  candidateVersion := some "1.0.0"
  lastError := none
  highestCommittedVersion := none

/-- The journal and slot `B` after a loss at that moment. -/
def afterVerify (l : Loss) : Option (Option (Contents PersistedOta) × SlotDir) :=
  poweredUpdate[23]?.map fun s =>
    (((s.event.after storage none).disk.lose l).journal, ((s.event.after storage none).disk.lose l).slots .B)

/-- A loss of everything that is not durable and not in a slot. -/
def slotsKept : Loss
  | .slotEntry _, _ | .artifactEntry _, _ | .artifactContents _, _ | .versionEntry _, _
  | .versionContents _, _ => true
  | _, _ => false

/-- A loss of the contents of `artifact.bin` in slot `B` and of nothing else. -/
def artifactLost : Loss
  | .artifactContents .B, _ => false
  | _, _ => true

/-- The run, evaluated once. -/
theorem poweredUpdate_moment :
    poweredUpdate.length = 43 ∧
      (poweredUpdate.take 24).foldl lastStaged none = some (.B, [1], "1.0.0") ∧
      afterVerify slotsKept = some (some (.whole stagedRecord), ⟨some [1], some (.whole "1.0.0")⟩) ∧
      afterVerify artifactLost = some (some (.whole stagedRecord), ⟨some [], some (.whole "1.0.0")⟩) := by
  decide +kernel

theorem poweredUpdate_length : 23 < poweredUpdate.length := by
  rw [poweredUpdate_moment.1]
  omega

theorem staged_survives_power_loss_slotsKept :
    ∃ pre s post, poweredUpdate = pre ++ s :: post ∧
      ((s.event.after storage none).disk.lose slotsKept).journal = some (.whole stagedRecord) ∧
      HoldsStaged ((pre ++ [s]).foldl lastStaged none) ((s.event.after storage none).disk.lose slotsKept) := by
  have hsplit := split_at poweredUpdate_length
  obtain ⟨_, _, hat, _⟩ := poweredUpdate_moment
  rw [afterVerify, List.getElem?_eq_getElem poweredUpdate_length, Option.map_some, Option.some.injEq,
    Prod.mk.injEq] at hat
  refine ⟨_, _, _, hsplit, hat.1, ?_⟩
  refine staged_survives_power_loss tabulated releaseKey emptySlots _
    (System.run_nil_failsOnly _ (by simp [fullUpdate, updateCalls]) _) _ _ _ hsplit _ (.inr rfl) _ ?_
  intro _ _ _ _
  exact ⟨fun _ => rfl, fun _ => rfl, fun _ => rfl, fun _ => rfl, fun _ => rfl⟩

/-- `verify` has returned and `Staged` is in the journal; after the loss the artifact is an empty file. -/
theorem artifact_lost_after_staged :
    ∃ pre s post, poweredUpdate = pre ++ s :: post ∧
      ((s.event.after storage none).disk.lose artifactLost).journal = some (.whole stagedRecord) ∧
      ¬ HoldsStaged ((pre ++ [s]).foldl lastStaged none)
        ((s.event.after storage none).disk.lose artifactLost) := by
  obtain ⟨_, hstaged, _, hat⟩ := poweredUpdate_moment
  rw [afterVerify, List.getElem?_eq_getElem poweredUpdate_length, Option.map_some, Option.some.injEq,
    Prod.mk.injEq] at hat
  obtain ⟨hjournal, hslot⟩ := hat
  refine ⟨_, _, _, split_at poweredUpdate_length, hjournal, ?_⟩
  intro hholds
  obtain ⟨bytes, v, hg, hfiles⟩ := hholds stagedRecord .B hjournal (.inl ⟨rfl, rfl⟩)
  rw [List.take_append_getElem, hstaged] at hg
  rw [hslot] at hfiles
  cases hg
  cases hfiles

end Edgewarden.Ota
