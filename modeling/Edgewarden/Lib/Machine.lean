/-
# Edgewarden.Lib.Machine — machines that answer one call after the other.

A `Machine` has a state and answers calls; what it has been through is the list of the calls so far, and
properties of runs are properties of these lists.

* `Machine.answers` is what a run says; `Machine.history` is the rule for invariants that speak of it.
* `Machine.keeps` and `Machine.invariant` are the rules for properties of states.
* `Machine.after_congr` is the rule for two runs whose calls the machine cannot tell apart.
* `Outstanding P Q` is the temporal operator that the histories here need: something `P` has happened, and
  nothing `Q` since. `outstanding_snoc` is its rule for inductions over runs.

Nothing in this module is about a particular program.
-/
import Mathlib.Data.List.Induction
import Mathlib.Tactic.Common

namespace Edgewarden.Calls

variable {σ κ ω : Type}

/-- Calls `κ` with answers `ω` on a state `σ`. -/
structure Machine (σ κ ω : Type) where
  init : σ
  step : σ → κ → ω × σ

/-- The state after the calls of a list, in its order. -/
def Machine.after (m : Machine σ κ ω) (calls : List κ) : σ := calls.foldl (fun s c => (m.step s c).2) m.init

/-- The answer to a call after the calls of a list. -/
def Machine.answer (m : Machine σ κ ω) (calls : List κ) (c : κ) : ω := (m.step (m.after calls) c).1

theorem Machine.after_snoc (m : Machine σ κ ω) (calls : List κ) (c : κ) :
    m.after (calls ++ [c]) = (m.step (m.after calls) c).2 := by
  simp [Machine.after]

/-- The answers to the calls of a list, from a state on. -/
def Machine.answersFrom (m : Machine σ κ ω) : σ → List κ → List ω
  | _, [] => []
  | s, c :: calls => (m.step s c).1 :: m.answersFrom (m.step s c).2 calls

/-- The answers to the calls of a run. -/
def Machine.answers (m : Machine σ κ ω) (calls : List κ) : List ω := m.answersFrom m.init calls

theorem Machine.answers_snoc (m : Machine σ κ ω) (calls : List κ) (c : κ) :
    m.answers (calls ++ [c]) = m.answers calls ++ [m.answer calls c] := by
  unfold Machine.answers Machine.answer Machine.after
  generalize m.init = s
  induction calls generalizing s with
  | nil => rfl
  | cons c' calls ih =>
      simp only [List.cons_append, Machine.answersFrom, List.foldl_cons]
      rw [ih]

/-- **Invariants with a history.** What holds at first and is kept by every call, of the calls, their answers
and the state, holds of every run. -/
theorem Machine.history (m : Machine σ κ ω) {I : List κ → List ω → σ → Prop} (hinit : I [] [] m.init)
    (hstep : ∀ calls answers s c, I calls answers s →
      I (calls ++ [c]) (answers ++ [(m.step s c).1]) (m.step s c).2) (calls : List κ) :
    I calls (m.answers calls) (m.after calls) := by
  induction calls using List.reverseRecOn with
  | nil => exact hinit
  | append_singleton calls c ih =>
      rw [m.answers_snoc, m.after_snoc]
      exact hstep calls _ _ c ih

/-- What calls of a kind keep holds after any number of them. -/
theorem Machine.keeps (m : Machine σ κ ω) {I : σ → Prop} {K : κ → Prop}
    (hstep : ∀ s c, K c → I s → I (m.step s c).2) {calls more : List κ} (hmore : ∀ c ∈ more, K c)
    (h : I (m.after calls)) : I (m.after (calls ++ more)) := by
  induction more using List.reverseRecOn with
  | nil =>
      rw [List.append_nil]
      exact h
  | append_singleton more c ih =>
      rw [← List.append_assoc, m.after_snoc]
      refine hstep _ c (hmore c ?_) (ih fun c' hc' => hmore c' ?_)
      · simp
      · simp [hc']

/-- **Invariants.** What holds at first and is kept by every call holds after every run. -/
theorem Machine.invariant (m : Machine σ κ ω) {I : σ → Prop} (hinit : I m.init)
    (hstep : ∀ s c, I s → I (m.step s c).2) (calls : List κ) : I (m.after calls) := by
  have h : I (m.after ([] ++ calls)) :=
    m.keeps (K := fun _ => True) (fun s c _ => hstep s c) (fun _ _ => trivial) hinit
  exact h

/-- **Two runs.** Calls that every state answers alike, one for one, lead to the same state. -/
theorem Machine.after_congr (m : Machine σ κ ω) {R : κ → κ → Prop}
    (hstep : ∀ s c c', R c c' → m.step s c = m.step s c') {calls calls' : List κ}
    (h : List.Forall₂ R calls calls') : m.after calls = m.after calls' := by
  unfold Machine.after
  generalize m.init = s
  induction h generalizing s with
  | nil => rfl
  | cons hc _ ih =>
      rw [List.foldl_cons, List.foldl_cons, hstep s _ _ hc]
      exact ih _

/-! ## §1 What is outstanding. -/

variable {P Q : List κ → κ → Prop} {calls : List κ} {c : κ}

/-- A call with `P` has been made, and none with `Q` since. Both may depend on the calls before. -/
inductive Outstanding (P Q : List κ → κ → Prop) : List κ → Prop
  | now {calls : List κ} {c : κ} : P calls c → Outstanding P Q (calls ++ [c])
  | still {calls : List κ} {c : κ} : Outstanding P Q calls → ¬ Q calls c → Outstanding P Q (calls ++ [c])

theorem not_outstanding_nil : ¬ Outstanding P Q [] := by
  intro h
  generalize hnil : ([] : List κ) = calls at h
  cases h with
  | now _ => simp at hnil
  | still _ _ => simp at hnil

theorem outstanding_snoc :
    Outstanding P Q (calls ++ [c]) ↔ P calls c ∨ (Outstanding P Q calls ∧ ¬ Q calls c) := by
  constructor
  · intro h
    generalize hall : calls ++ [c] = all at h
    cases h with
    | now hP =>
        obtain ⟨rfl, hc⟩ := List.append_inj' hall rfl
        rw [List.singleton_inj.mp hc]
        exact .inl hP
    | still hout hQ =>
        obtain ⟨rfl, hc⟩ := List.append_inj' hall rfl
        rw [List.singleton_inj.mp hc]
        exact .inr ⟨hout, hQ⟩
  · rintro (hP | ⟨hout, hQ⟩)
    · exact .now hP
    · exact .still hout hQ

/-- The same thing may be said of what is outstanding in two ways. -/
theorem Outstanding.congr {P' : List κ → κ → Prop} (h : ∀ calls c, P calls c ↔ P' calls c) :
    Outstanding P Q calls ↔ Outstanding P' Q calls := by
  induction calls using List.reverseRecOn with
  | nil => simp [not_outstanding_nil]
  | append_singleton calls c ih => rw [outstanding_snoc, outstanding_snoc, ih, h]

end Edgewarden.Calls
