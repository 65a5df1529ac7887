/-
# Edgewarden.Registry.PowerLoss — the "crash-safe registry snapshot" under power loss.

`write_snapshot` writes `<path>.tmp` and renames it over the snapshot, syncs neither the file nor the directory,
and only logs what fails. A process that dies leaves the files as it saw them; a power loss keeps any selection
of the writes that are not durable (`Lib.Durable`).

The only float of a snapshot is the cpu usage of a record. `serde_json` prints a finite one so that it could be
read back exactly, and reads it with a faster rounding that may be a unit in the last place away from that. So
what it reads is a parameter here, `read`; `loadFound_id` says that `load` is the case in which it is exact.

* §1 is the control plane on such storage: operations whose snapshots may fail at either step, and restarts.
* `snapshot_after_power_loss`: the control plane comes up with the registry of SOME earlier moment of the run, or
  empty, or not at all; it does not come up only if the file has lost its contents, or is the snapshot of a
  registry with a record that cannot be read back.
* `snapshot_never_durable`: no seq that an operator was answered is safe. There is always a loss after which the
  registry is empty and its seqs start again at 1; and one after which `main` refuses to start, once anything
  has been written.

What a registry that is behind its edges does to them is in `Fleet.Setback`.
-/
import Edgewarden.Lib.Durable
import Edgewarden.Lib.Method
import Edgewarden.Registry.Roster

namespace Edgewarden.Registry

open Edgewarden.Calls Edgewarden.Durable Edgewarden.FaultIo Edgewarden.Serde Edgewarden.State

/-! ## §1 The control plane on storage that can lose writes. -/

/-- The snapshot and its temporary file. A new file is empty, which does not decode. -/
abbrev SnapshotStorage := Replaced (Contents Json)

/-- How a `write_snapshot` goes. -/
inductive SnapshotWrite
  | complete
  /-- The temporary file could not be opened. -/
  | refused
  /-- It could not be written to its end. -/
  | torn
  /-- It could not be renamed, or the process died before. -/
  | unrenamed
  deriving DecidableEq, Repr

def writeSnapshot (bytes : Json) : SnapshotWrite → SnapshotStorage → SnapshotStorage
  | .complete, s => (s.writeTmp .garbled (.whole bytes)).rename .garbled
  | .refused, s => s
  | .torn, s => s.writeTmp .garbled .garbled
  | .unrenamed, s => s.writeTmp .garbled (.whole bytes)

/-- A snapshot as it is read back, when the text of the float `x` is read as `read x`. -/
def RegistrySnapshot.reread (read : F64 → F64) (s : RegistrySnapshot) : RegistrySnapshot :=
  { s with devices := s.devices.map fun d => { d with cpuUsage := read d.cpuUsage } }

/-- `Registry::load` of what is under the name. A file that does not decode is a hard error. -/
def loadFound (read : F64 → F64) : Option (Contents Json) → Option Inner
  | none => load none
  | some (.whole bytes) => (RegistrySnapshot.codec.decode bytes).map fun s => (s.reread read).restore
  | some .garbled => none

/-- The registry of the process, unless `load` failed, and the storage. -/
structure PoweredPlane where
  registry : Option Inner
  storage : SnapshotStorage

inductive PoweredEvent
  | operation (op : Op) (write : SnapshotWrite)
  | restart

def PoweredPlane.operate (w : PoweredPlane) (op : Op) (write : SnapshotWrite) : PoweredPlane :=
  match w.registry with
  | none => w
  | some r =>
      { registry := some (op.apply r).2
        storage := if (op.apply r).1 then writeSnapshot (op.apply r).2.file write w.storage else w.storage }

def PoweredPlane.step (read : F64 → F64) (w : PoweredPlane) : PoweredEvent → Unit × PoweredPlane
  | .operation op write => ((), w.operate op write)
  | .restart => ((), { w with registry := loadFound read w.storage.visible })

/-- A control plane that starts without a snapshot. -/
def powered (read : F64 → F64) : Machine PoweredPlane PoweredEvent Unit where
  init := ⟨some .empty, .missing .garbled⟩
  step := PoweredPlane.step read

/-- What a power loss at the end of the run leaves under the name. -/
def leftAfter (read : F64 → F64) (events : List PoweredEvent) (keepEntry keepContents : Nat → Bool) :
    Option (Contents Json) :=
  ((powered read).after events).storage.lose keepEntry keepContents

/-- What the control plane comes up with after it. -/
def foundAfter (read : F64 → F64) (events : List PoweredEvent) (keepEntry keepContents : Nat → Bool) :
    Option Inner :=
  loadFound read (leftAfter read events keepEntry keepContents)

/-! ## §2 What is read back. -/

section Reading

variable {read : F64 → F64} {r : Inner}

/-- Exact reading is `load`. -/
theorem loadFound_id (bytes : Json) : loadFound id (some (.whole bytes)) = load (some bytes) := by
  have hexact : ∀ s : RegistrySnapshot, s.reread id = s := by
    intro s
    simp [RegistrySnapshot.reread]
  simp only [loadFound, load, hexact]

/-- The file of `r` is readable if every record is. -/
theorem loadFound_file (read : F64 → F64) (hfin : r.AllFinite) :
    loadFound read (some (.whole r.file)) = some (r.snapshot.reread read).restore := by
  show (RegistrySnapshot.codec.decode (RegistrySnapshot.codec.encode r.snapshot)).map _ = _
  rw [snapshot_decode_encode, if_pos (all_finite_iff.mpr hfin)]
  rfl

theorem loadFound_file_eq_none_iff : loadFound read (some (.whole r.file)) = none ↔ ¬ r.AllFinite := by
  constructor
  · intro hnone hfin
    cases (loadFound_file read hfin).symm.trans hnone
  · intro hnot
    show (RegistrySnapshot.codec.decode (RegistrySnapshot.codec.encode r.snapshot)).map _ = _
    rw [snapshot_decode_encode, if_neg (fun h => hnot (all_finite_iff.mp h))]
    rfl

end Reading

/-! ## §3 What is written where. -/

/-- The registry that was in memory at some moment of the run. -/
def WasInMemory (read : F64 → F64) (events : List PoweredEvent) (r : Inner) : Prop :=
  ∃ moment, moment <+: events ∧ ((powered read).after moment).registry = some r

/-- The snapshot of one of these. -/
def SnapshotOf (read : F64 → F64) (events : List PoweredEvent) (c : Contents Json) : Prop :=
  ∃ r, c = .whole r.file ∧ WasInMemory read events r

structure Shelved (read : F64 → F64) (events : List PoweredEvent) (s : SnapshotStorage) : Prop where
  sound : s.Sound (SnapshotOf read events) .garbled
  unsynced : s.Unsynced .garbled

section Storage

variable {read : F64 → F64} {events : List PoweredEvent} {s : SnapshotStorage} {r : Inner}

theorem WasInMemory.later (h : WasInMemory read events r) (e : PoweredEvent) :
    WasInMemory read (events ++ [e]) r := by
  obtain ⟨moment, hmoment, hr⟩ := h
  exact ⟨moment, hmoment.trans (List.prefix_append _ _), hr⟩

theorem Shelved.later (h : Shelved read events s) (e : PoweredEvent) : Shelved read (events ++ [e]) s where
  sound := h.sound.mono fun _ ⟨r, hc, hr⟩ => ⟨r, hc, hr.later e⟩
  unsynced := h.unsynced

theorem Shelved.write (h : Shelved read events s) (hr : WasInMemory read events r) (write : SnapshotWrite) :
    Shelved read events (writeSnapshot r.file write s) := by
  have hstaged : Shelved read events (s.writeTmp .garbled (.whole r.file)) :=
    ⟨h.sound.writeTmp (.inr ⟨r, rfl, hr⟩), h.unsynced.writeTmp _⟩
  cases write with
  | complete =>
      refine ⟨hstaged.sound.rename ⟨r, ?_, hr⟩, hstaged.unsynced.rename⟩
      exact (File.view_eq_some (File.view_write .garbled s.tmp (.whole r.file))).2
  | refused => exact h
  | torn => exact ⟨h.sound.writeTmp (.inl rfl), h.unsynced.writeTmp _⟩
  | unrenamed => exact hstaged

/-- Only snapshots of the run are ever renamed, and nothing is ever synced. -/
theorem shelved_after (read : F64 → F64) (events : List PoweredEvent) :
    Shelved read events ((powered read).after events).storage := by
  induction events using List.reverseRecOn with
  | nil => exact ⟨Replaced.missing_sound _ _, Replaced.missing_unsynced _⟩
  | append_singleton events e ih =>
      have hlater := ih.later e
      cases e with
      | restart =>
          rw [Machine.after_snoc]
          exact hlater
      | operation op write =>
          have hafter : (powered read).after (events ++ [.operation op write]) =
              ((powered read).after events).operate op write := (powered read).after_snoc events _
          rw [hafter]
          unfold PoweredPlane.operate at hafter ⊢
          cases hr : ((powered read).after events).registry with
          | none => exact hlater
          | some r =>
              simp only [hr] at hafter
              have hnow : WasInMemory read (events ++ [.operation op write]) (op.apply r).2 :=
                ⟨_, List.prefix_rfl, by rw [hafter]⟩
              show Shelved _ _ (if (op.apply r).1 = true then _ else _)
              split
              · exact hlater.write hnow write
              · exact hlater

end Storage

/-! ## §4 Power loss. -/

/-- **What a control plane finds after a power loss.** In every run of operations and restarts, whatever
`write_snapshot` fails and wherever, for every reading of floats and for every selection of writes that a power
loss keeps: it does not come up, it comes up empty, or it comes up with the roster and the desired state of the
registry as it was in memory at some moment of the run. If the loss keeps the contents of the file that it leaves
under the name, then it does not come up exactly if that file is the snapshot of a registry of the run with a
record whose cpu usage is not finite. -/
theorem snapshot_after_power_loss (read : F64 → F64) (events : List PoweredEvent)
    (keepEntry keepContents : Nat → Bool) :
    (foundAfter read events keepEntry keepContents = none ∨
        foundAfter read events keepEntry keepContents = some .empty ∨
        ∃ r, WasInMemory read events r ∧
          foundAfter read events keepEntry keepContents = some (r.snapshot.reread read).restore) ∧
      (((powered read).after events).storage.KeepsNamed keepEntry keepContents →
        (foundAfter read events keepEntry keepContents = none ↔
          ∃ r, WasInMemory read events r ∧ ¬ r.AllFinite ∧
            leftAfter read events keepEntry keepContents = some (.whole r.file))) := by
  have hshelved := shelved_after read events
  unfold foundAfter
  cases hlost : leftAfter read events keepEntry keepContents with
  | none =>
      refine ⟨.inr (.inl rfl), ?_⟩
      intro _
      constructor
      · intro hnone
        cases hnone
      · rintro ⟨_, _, _, hleft⟩
        cases hleft
  | some contents =>
      obtain ⟨hfound, hkept⟩ := hshelved.sound.lost hlost
      constructor
      · rcases hfound with rfl | ⟨r, rfl, hr⟩
        · exact .inl rfl
        · by_cases hfin : r.AllFinite
          · exact .inr (.inr ⟨r, hr, loadFound_file read hfin⟩)
          · exact .inl (loadFound_file_eq_none_iff.mpr hfin)
      · intro hkeeps
        constructor
        · intro hnone
          obtain ⟨r, rfl, hr⟩ := hkept hkeeps
          exact ⟨r, hr, loadFound_file_eq_none_iff.mp hnone, rfl⟩
        · rintro ⟨r, _, hnot, hleft⟩
          rw [hleft]
          exact loadFound_file_eq_none_iff.mpr hnot

/-- **Nothing that the control plane persists is durable.** In every run there is a power loss after which the
registry is empty, whatever the operator was answered; and if a snapshot was ever put in place, one after which
the control plane does not come up. -/
theorem snapshot_never_durable (read : F64 → F64) (events : List PoweredEvent) :
    (∀ keepContents, foundAfter read events (fun _ => false) keepContents = some .empty) ∧
      (((powered read).after events).storage.visible ≠ none →
        ∃ keepEntry keepContents, foundAfter read events keepEntry keepContents = none) := by
  have hunsynced := (shelved_after read events).unsynced
  refine ⟨?_, ?_⟩
  · intro keepContents
    unfold foundAfter leftAfter
    rw [hunsynced.lose_all]
    rfl
  · intro hvisible
    refine ⟨fun _ => true, fun _ => false, ?_⟩
    unfold foundAfter leftAfter
    rw [hunsynced.lose_contents hvisible]
    rfl

/-- After the first push of an operator. -/
theorem snapshot_never_durable_pushed :
    ∃ keepEntry keepContents,
      foundAfter id [.operation (.setPolicy Policy.default) .complete] keepEntry keepContents = none :=
  (snapshot_never_durable id [.operation (.setPolicy Policy.default) .complete]).2 (Option.some_ne_none _)

end Edgewarden.Registry
