/-
# Edgewarden.Lib.Durable — what a power loss leaves of writes that were not synced.

A `Cell` is one place of a storage device: a value that is durable, and the writes made to it since, which
are visible but not durable. A power loss keeps some of those writes and discards the others, in any
combination; what is left is the last write that was kept, or the durable value. A `File` is a directory
entry and contents, two places that are synced and lost independently of each other.

`Replaced` is a file that is only written by renaming a temporary file over it, without a sync: `Sound` is what
its writer can rely on after a power loss, `Unsynced` what it can not.

Nothing in this module is about a particular program.
-/
import Mathlib.Data.List.Basic
import Mathlib.Tactic.Common

namespace Edgewarden.Durable

variable {α β : Type}

/-! ## §1 Places. -/

/-- A durable value and the writes since, oldest first. -/
structure Cell (α : Type) where
  durable : α
  pending : List α

namespace Cell

/-- A value that is durable. -/
def of (a : α) : Cell α := ⟨a, []⟩

/-- What a process sees. -/
def value (c : Cell α) : α := c.pending.getLastD c.durable

def write (c : Cell α) (a : α) : Cell α := { c with pending := c.pending ++ [a] }

def sync (c : Cell α) : Cell α := ⟨c.value, []⟩

/-- What a power loss may leave. -/
def possible (c : Cell α) : List α := c.durable :: c.pending

@[simp] theorem value_of (a : α) : (of a).value = a := rfl

@[simp] theorem value_write (c : Cell α) (a : α) : (c.write a).value = a := List.getLastD_concat

theorem value_of_settled {c : Cell α} (h : c.pending = []) : c.value = c.durable := by
  rw [value, h]
  rfl

theorem value_possible (c : Cell α) : c.value ∈ c.possible := List.getLastD_mem_cons

theorem possible_of_settled {c : Cell α} (h : c.pending = []) : c.possible = [c.value] := by
  rw [possible, h, value_of_settled h]

theorem mem_possible_write {c : Cell α} {a b : α} :
    b ∈ (c.write a).possible ↔ b ∈ c.possible ∨ b = a := by
  simp [possible, write, or_assoc]

end Cell

/-! ## §2 Power loss. -/

/-- The writes of a list that are kept. -/
def kept (keep : Nat → Bool) (writes : List α) : List α :=
  (writes.zipIdx.filter fun x => keep x.2).map Prod.fst

theorem kept_concat (keep : Nat → Bool) (writes : List α) (a : α) :
    kept keep (writes ++ [a]) = kept keep writes ++ if keep writes.length then [a] else [] := by
  simp only [kept, List.zipIdx_append, List.filter_append, List.map_append]
  cases h : keep writes.length <;> simp [h]

theorem mem_of_mem_kept {keep : Nat → Bool} {writes : List α} {a : α} (h : a ∈ kept keep writes) :
    a ∈ writes := by
  obtain ⟨⟨b, i⟩, hb, rfl⟩ := List.mem_map.mp h
  exact List.fst_mem_of_mem_zipIdx (List.mem_filter.mp hb).1

namespace Cell

/-- What a power loss leaves that keeps the pending writes `keep` selects. -/
def lose (keep : Nat → Bool) (c : Cell α) : α := (kept keep c.pending).getLastD c.durable

/-- The power loss keeps the latest of the writes that are not durable, if there are any. -/
def KeepsLast (keep : Nat → Bool) (c : Cell α) : Prop :=
  c.pending ≠ [] → keep (c.pending.length - 1) = true

theorem lose_possible (keep : Nat → Bool) (c : Cell α) : c.lose keep ∈ c.possible := by
  have hlast : c.lose keep ∈ c.durable :: kept keep c.pending := List.getLastD_mem_cons
  rcases List.mem_cons.mp hlast with h | h
  · exact List.mem_cons.mpr (.inl h)
  · exact List.mem_cons_of_mem _ (mem_of_mem_kept h)

theorem lose_of_settled {keep : Nat → Bool} {c : Cell α} (h : c.pending = []) : c.lose keep = c.value := by
  have hmem := c.lose_possible keep
  rw [possible_of_settled h] at hmem
  exact List.mem_singleton.mp hmem

theorem lose_eq_value {keep : Nat → Bool} {c : Cell α} (h : c.KeepsLast keep) :
    c.lose keep = c.value := by
  obtain ⟨a, writes⟩ := c
  rcases List.eq_nil_or_concat' writes with rfl | ⟨writes, b, rfl⟩
  · rfl
  · have hlast : keep writes.length = true := by
      simpa using h (List.append_ne_nil_of_right_ne_nil _ (List.cons_ne_nil _ _))
    show (kept keep (writes ++ [b])).getLastD a = (writes ++ [b]).getLastD a
    rw [kept_concat, if_pos hlast, List.getLastD_concat, List.getLastD_concat]

theorem lose_nothing (c : Cell α) : c.lose (fun _ => false) = c.durable := by
  simp [lose, kept]

end Cell

/-! ## §3 Files. -/

/-- A name in a directory and the contents of the file it names. -/
structure File (α : Type) where
  entry : Cell Bool
  contents : Cell α

namespace File

/-- A name that is not in the directory. -/
def missing (empty : α) : File α := ⟨Cell.of false, Cell.of empty⟩

/-- A file that is durable, if there is one. -/
def ofOption (empty : α) : Option α → File α
  | none => missing empty
  | some a => ⟨Cell.of true, Cell.of a⟩

/-- What a process reads. -/
def view (f : File α) : Option α := if f.entry.value then some f.contents.value else none

/-- Writing to an existing file replaces its contents; otherwise the file is created, empty, and its entry
is one more write. -/
def write (empty : α) (f : File α) (a : α) : File α :=
  if f.entry.value then { f with contents := f.contents.write a }
  else ⟨f.entry.write true, (Cell.of empty).write a⟩

/-- What a power loss leaves. -/
def lose (keepEntry keepContents : Nat → Bool) (f : File α) : Option α :=
  if f.entry.lose keepEntry then some (f.contents.lose keepContents) else none

@[simp] theorem view_missing (empty : α) : (missing empty).view = none := rfl

@[simp] theorem view_ofOption (empty : α) (a : Option α) : (ofOption empty a).view = a := by
  cases a <;> rfl

theorem write_entry (empty : α) (f : File α) (a : α) : (f.write empty a).entry.value = true := by
  unfold write
  split
  · assumption
  · exact Cell.value_write _ _

@[simp] theorem view_write (empty : α) (f : File α) (a : α) : (f.write empty a).view = some a := by
  rw [view, write_entry, if_pos rfl]
  unfold write
  split <;> rw [Cell.value_write]

theorem view_eq_some {f : File α} {a : α} (h : f.view = some a) :
    f.entry.value = true ∧ f.contents.value = a := by
  unfold view at h
  split at h
  · exact ⟨by assumption, Option.some.inj h⟩
  · cases h

theorem lose_eq_view {keepEntry keepContents : Nat → Bool} {f : File α}
    (hentry : f.entry.KeepsLast keepEntry) (hcontents : f.contents.KeepsLast keepContents) :
    f.lose keepEntry keepContents = f.view := by
  rw [lose, view, Cell.lose_eq_value hentry, Cell.lose_eq_value hcontents]

end File

/-! ## §4 Files that are replaced by a rename. -/

/-- A file and the temporary file beside it. The file's entry names what was renamed, with the writes to it
that are not durable. -/
structure Replaced (α : Type) where
  file : Cell (Option (Cell α))
  tmp : File α

namespace Replaced

variable {Good : α → Prop} {empty a : α} {r : Replaced α}

/-- Neither file is there. -/
def missing (empty : α) : Replaced α := ⟨Cell.of none, File.missing empty⟩

/-- What a process reads. -/
def visible (r : Replaced α) : Option α := r.file.value.map Cell.value

def writeTmp (empty : α) (r : Replaced α) (a : α) : Replaced α := { r with tmp := r.tmp.write empty a }

/-- Two changes of the directory. -/
def rename (empty : α) (r : Replaced α) : Replaced α :=
  if r.tmp.entry.value then
    ⟨r.file.write (some r.tmp.contents), ⟨r.tmp.entry.write false, Cell.of empty⟩⟩
  else r

/-- What a power loss leaves under the name of the file. -/
def lose (keepEntry keepContents : Nat → Bool) (r : Replaced α) : Option α :=
  (r.file.lose keepEntry).map (Cell.lose keepContents)

/-- Everything that was ever renamed was good, and every place holds good values, or none. -/
structure Sound (Good : α → Prop) (empty : α) (r : Replaced α) : Prop where
  named : ∀ c, some c ∈ r.file.possible → Good c.value ∧ ∀ a ∈ c.possible, a = empty ∨ Good a
  staged : ∀ a ∈ r.tmp.contents.possible, a = empty ∨ Good a

theorem missing_sound (Good : α → Prop) (empty : α) : (missing empty).Sound Good empty where
  named c hc := by simp [missing, Cell.of, Cell.possible] at hc
  staged a ha := by
    simp only [missing, File.missing, Cell.of, Cell.possible, List.mem_singleton] at ha
    exact .inl ha

theorem Sound.mono {Good' : α → Prop} (h : r.Sound Good empty) (hgood : ∀ a, Good a → Good' a) :
    r.Sound Good' empty where
  named c hc := ⟨hgood _ (h.named c hc).1, fun a ha => ((h.named c hc).2 a ha).imp_right (hgood a)⟩
  staged a ha := (h.staged a ha).imp_right (hgood a)

theorem mem_write_contents {f : File α} {b : α} (hb : b ∈ (f.write empty a).contents.possible) :
    b ∈ f.contents.possible ∨ b = empty ∨ b = a := by
  unfold File.write at hb
  split at hb
  · exact (Cell.mem_possible_write.mp hb).imp_right .inr
  · rcases Cell.mem_possible_write.mp hb with hb | hb
    · exact .inr (.inl (List.mem_singleton.mp hb))
    · exact .inr (.inr hb)

theorem Sound.writeTmp (h : r.Sound Good empty) (ha : a = empty ∨ Good a) : (r.writeTmp empty a).Sound Good empty where
  named := h.named
  staged b hb := by
    rcases mem_write_contents hb with hb | rfl | rfl
    · exact h.staged b hb
    · exact .inl rfl
    · exact ha

/-- A rename of a file that is complete. -/
theorem Sound.rename (h : r.Sound Good empty) (hready : Good r.tmp.contents.value) : (r.rename empty).Sound Good empty := by
  unfold Replaced.rename
  split
  · refine ⟨?_, ?_⟩
    · intro c hc
      rcases Cell.mem_possible_write.mp hc with hc | hc
      · exact h.named c hc
      · rw [Option.some.inj hc]
        exact ⟨hready, h.staged⟩
    · intro b hb
      exact .inl (List.mem_singleton.mp hb)
  · exact h

/-- The power loss keeps the latest contents of the file that it leaves under the name. -/
def KeepsNamed (keepEntry keepContents : Nat → Bool) (r : Replaced α) : Prop :=
  ∀ c, r.file.lose keepEntry = some c → c.KeepsLast keepContents

/-- **After a power loss** there is no file, a good one, or an empty one; no empty one, if the contents of the
file are kept with its name. -/
theorem Sound.lost (h : r.Sound Good empty) {keepEntry keepContents : Nat → Bool}
    (hlost : r.lose keepEntry keepContents = some a) :
    (a = empty ∨ Good a) ∧ (r.KeepsNamed keepEntry keepContents → Good a) := by
  obtain ⟨c, hc, rfl⟩ := Option.map_eq_some_iff.mp hlost
  have hnamed := h.named c (hc ▸ r.file.lose_possible keepEntry)
  refine ⟨hnamed.2 _ (c.lose_possible keepContents), ?_⟩
  intro hkeeps
  rw [Cell.lose_eq_value (hkeeps c hc)]
  exact hnamed.1

/-- Nothing that was written is durable. -/
structure Unsynced (empty : α) (r : Replaced α) : Prop where
  entry : r.file.durable = none
  named : ∀ c, some c ∈ r.file.possible → c.durable = empty
  tmpEntry : r.tmp.entry.durable = false
  staged : r.tmp.contents.durable = empty

theorem missing_unsynced (empty : α) : (missing empty).Unsynced empty where
  entry := rfl
  named c hc := by simp [missing, Cell.of, Cell.possible] at hc
  tmpEntry := rfl
  staged := rfl

theorem Unsynced.writeTmp (h : r.Unsynced empty) (a : α) : (r.writeTmp empty a).Unsynced empty := by
  unfold Replaced.writeTmp File.write
  split
  · exact ⟨h.entry, h.named, h.tmpEntry, h.staged⟩
  · exact ⟨h.entry, h.named, h.tmpEntry, rfl⟩

theorem Unsynced.rename (h : r.Unsynced empty) : (r.rename empty).Unsynced empty := by
  unfold Replaced.rename
  split
  · refine ⟨h.entry, ?_, h.tmpEntry, rfl⟩
    intro c hc
    rcases Cell.mem_possible_write.mp hc with hc | hc
    · exact h.named c hc
    · rw [Option.some.inj hc]
      exact h.staged
  · exact h

/-- A power loss that keeps nothing leaves no file. -/
theorem Unsynced.lose_all (h : r.Unsynced empty) (keepContents : Nat → Bool) :
    r.lose (fun _ => false) keepContents = none := by
  rw [lose, Cell.lose_nothing, h.entry]
  rfl

/-- One that keeps the entries and nothing else leaves the name of the file, and nothing in it. -/
theorem Unsynced.lose_contents (h : r.Unsynced empty) (hvisible : r.visible ≠ none) :
    r.lose (fun _ => true) (fun _ => false) = some empty := by
  have hentry : r.file.lose (fun _ => true) = r.file.value := Cell.lose_eq_value fun _ => rfl
  unfold visible at hvisible
  rw [lose, hentry]
  cases hvalue : r.file.value with
  | none => simp [hvalue] at hvisible
  | some c =>
      have hc : some c ∈ r.file.possible := hvalue ▸ r.file.value_possible
      rw [Option.map_some, Cell.lose_nothing, h.named c hc]

end Replaced

end Edgewarden.Durable
