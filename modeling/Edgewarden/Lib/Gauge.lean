/-
# Edgewarden.Lib.Gauge — counters of how many tasks are where.

Tasks are a list of phases, one for each task that was ever spawned; a step moves one of them. A counter
that the tasks keep is a gauge: it `Reads` a set of phases if it is the number of tasks in it. A step from
phase `p` to phase `q` has to change it by what `p` and `q` say (`Reads.move`), whatever the others do.

A counter that tasks only add to is looked at from its end: with what the tasks still `Owes` it, it is the same
at every moment.

Nothing in this module is about a particular program.
-/
import Mathlib.Algebra.Order.BigOperators.Group.List
import Mathlib.Algebra.Order.Ring.Nat
import Mathlib.Data.List.Basic
import Mathlib.Tactic.Common

namespace Edgewarden.Gauge

variable {π : Type} {f g : π → Bool} {tasks : List π} {i n : Nat} {p q : π}

/-- `n` tasks are in `f`. -/
def Reads (f : π → Bool) (tasks : List π) (n : Nat) : Prop := tasks.countP f = n

/-- A new task in a phase that the gauge does not count. -/
theorem Reads.spawn (h : Reads f tasks n) (hp : f p = false) : Reads f (tasks ++ [p]) n := by
  simpa [Reads, List.countP_append, hp] using h

/-- One task moves from `p` to `q`. -/
theorem countP_move (hi : tasks[i]? = some p) :
    (tasks.set i q).countP f + (f p).toNat = tasks.countP f + (f q).toNat := by
  obtain ⟨hlt, hget⟩ := List.getElem?_eq_some_iff.mp hi
  have hpos : f p = true → 0 < tasks.countP f := fun hp =>
    List.countP_pos_iff.mpr ⟨p, hget ▸ List.getElem_mem hlt, hp⟩
  rw [List.countP_set hlt, hget]
  generalize tasks.countP f = n at hpos ⊢
  cases hp : f p <;> cases hq : f q <;> simp [hp] at hpos ⊢ <;> omega

theorem Reads.move {n' : Nat} (h : Reads f tasks n) (hi : tasks[i]? = some p)
    (hn : n' + (f p).toNat = n + (f q).toNat) : Reads f (tasks.set i q) n' := by
  have hmove := countP_move (f := f) (q := q) hi
  unfold Reads at h ⊢
  omega

/-- A gauge of a task that it counts is not at zero. -/
theorem Reads.pos (h : Reads f tasks n) (hi : tasks[i]? = some p) (hp : f p = true) : 0 < n := by
  obtain ⟨hlt, hget⟩ := List.getElem?_eq_some_iff.mp hi
  rw [← h]
  exact List.countP_pos_iff.mpr ⟨p, hget ▸ List.getElem_mem hlt, hp⟩

theorem Reads.mono {n' : Nat} (h : Reads f tasks n) (h' : Reads g tasks n')
    (hfg : ∀ p ∈ tasks, f p = true → g p = true) : n ≤ n' := by
  rw [← h, ← h']
  exact List.countP_mono_left hfg

/-- A gauge that counts no task. -/
theorem Reads.none (h : Reads f tasks n) (hf : ∀ p ∈ tasks, f p = false) : n = 0 := by
  rw [← h]
  exact List.countP_eq_zero.mpr fun p hp => by simp [hf p hp]

/-- Two gauges that share out the tasks. -/
theorem Reads.complement {n' : Nat} (h : Reads f tasks n) (h' : Reads g tasks n')
    (hfg : ∀ p ∈ tasks, f p = !g p) : n + n' = tasks.length := by
  have hcount : tasks.countP f = tasks.countP fun p => !g p := List.countP_congr fun p hp => by rw [hfg p hp]
  have htotal := List.length_eq_countP_add_countP g (l := tasks)
  unfold Reads at h h'
  simp only [Bool.not_eq_true] at htotal
  have hne : (tasks.countP fun p => !g p) = tasks.countP fun p => decide (g p = false) :=
    List.countP_congr fun p _ => by simp
  omega

/-- A gauge whose tasks two others share out. -/
theorem countP_share {k : π → Bool} (h : ∀ p, (f p).toNat = (g p).toNat + (k p).toNat) :
    tasks.countP f = tasks.countP g + tasks.countP k := by
  induction tasks with
  | nil => rfl
  | cons p tasks ih =>
      have hp := h p
      simp only [List.countP_cons, ih]
      cases hf : f p <;> cases hg : g p <;> cases hk : k p <;> simp [hf, hg, hk] at hp ⊢ <;> omega

/-! ## What tasks owe. -/

section Owes

variable {w : π → Nat} {n' total : Nat}

/-- The counter is at `n`, and the tasks still add `w` each, which makes `total`. -/
def Owes (w : π → Nat) (tasks : List π) (n total : Nat) : Prop := n + (tasks.map w).sum = total

theorem sum_move (hi : tasks[i]? = some p) :
    ((tasks.set i q).map w).sum + w p = (tasks.map w).sum + w q := by
  induction tasks generalizing i with
  | nil => simp at hi
  | cons t tasks ih =>
      cases i with
      | zero =>
          obtain rfl : t = p := by simpa using hi
          simp only [List.set_cons_zero, List.map_cons, List.sum_cons]
          omega
      | succ i =>
          have htail := ih (by simpa using hi)
          simp only [List.set_cons_succ, List.map_cons, List.sum_cons]
          omega

/-- A task pays what it owes less. -/
theorem Owes.move (h : Owes w tasks n total) (hi : tasks[i]? = some p) (hn : n' + w q = n + w p) :
    Owes w (tasks.set i q) n' total := by
  have hmove := sum_move (w := w) (q := q) hi
  unfold Owes at h ⊢
  omega

/-- A task pays what it owes less, and `k` is added to what is owed. -/
theorem Owes.charge {k : Nat} (h : Owes w tasks n total) (hi : tasks[i]? = some p) (hn : n' + w q = n + w p + k) :
    Owes w (tasks.set i q) n' (total + k) := by
  have hmove := sum_move (w := w) (q := q) hi
  unfold Owes at h ⊢
  omega

theorem Owes.le (h : Owes w tasks n total) (hi : tasks[i]? = some p) : n + w p ≤ total := by
  have hmem : w p ∈ tasks.map w := List.mem_map.mpr ⟨p, List.mem_of_getElem? hi, rfl⟩
  have hle := List.single_le_sum (fun x _ => Nat.zero_le x) (w p) hmem
  unfold Owes at h
  omega

/-- Nothing is owed in the end. -/
theorem Owes.settled (h : Owes w tasks n total) (hw : ∀ p ∈ tasks, w p = 0) : n = total := by
  have hzero : (tasks.map w).sum = 0 := List.sum_eq_zero_iff.mpr (by simpa using hw)
  unfold Owes at h
  omega

end Owes

end Edgewarden.Gauge
