/-
# Edgewarden.Ota.Version — `compare_versions` and the versions on which it is an order.

`compareVersions` is the loop of `edge-ota/src/lib.rs`: two `split('.')` iterators in lock step, a
component compared numerically when BOTH sides parse as `u64` and lexically otherwise.

The mixed rule is not transitive over all strings (`compareVersions_not_trans`: `10 < 1a < 9 < 10`).
It is transitive on versions of one SHAPE, i.e. versions that agree, position by position, on
whether the component parses as `u64` (`Conforms`): there it is the lexicographic comparison of
component keys, so core's `TransCmp (List.compareLex _)` applies.

On versions that are written with numbers alone it is the order of the lists of these numbers
(`compareVersions_numeric`), whatever zeros they lead with.
-/
import Edgewarden.Lib.Text

namespace Edgewarden.Ota

open Edgewarden.Text

/-! ## §1 The comparison of the source. -/

/-- One component against one component. -/
def compareComponent (x y : List Char) : Ordering :=
  match parseU64 x, parseU64 y with
  | some nx, some ny => compare nx ny
  | _, _ => cmpStr x y

/-- The `loop` over the two component iterators. -/
def compareLoop : List (List Char) → List (List Char) → Ordering
  | [], [] => .eq
  | [], _ :: _ => .lt
  | _ :: _, [] => .gt
  | x :: xs, y :: ys =>
      let ord := compareComponent x y
      if ord ≠ .eq then ord else compareLoop xs ys

def components (v : String) : List (List Char) := split '.' v.toList

/-- `compare_versions`. -/
def compareVersions (a b : String) : Ordering := compareLoop (components a) (components b)

/-- The three versions of a device life that ends below its start: each is `Greater` than the one
before it, the last is not `Greater` than the first. -/
theorem compareVersions_not_trans :
    compareVersions "1a" "10" = .gt ∧ compareVersions "9" "1a" = .gt ∧
      compareVersions "9" "10" = .lt := by
  decide

/-! ## §2 Versions of one shape. -/

/-- `v` has shape `shape`: its `i`-th component parses as `u64` exactly when `shape i` says so. -/
def Conforms (shape : Nat → Bool) (v : String) : Prop :=
  ∀ i x, (components v)[i]? = some x → (parseU64 x).isSome = shape i

/-- What the comparison reads of a component: its numeric value, or its text. -/
def componentKey (x : List Char) : Nat ⊕ List Char :=
  match parseU64 x with
  | some n => .inl n
  | none => .inr x

def compareKey : Nat ⊕ List Char → Nat ⊕ List Char → Ordering
  | .inl m, .inl n => compare m n
  | .inl _, .inr _ => .lt
  | .inr _, .inl _ => .gt
  | .inr x, .inr y => cmpStr x y

instance : Std.TransCmp cmpStr := inferInstanceAs (Std.TransCmp (List.compareLex compare))

instance : Std.TransCmp compareKey where
  eq_swap {a b} := by
    rcases a with m | x <;> rcases b with n | y
    · exact (inferInstance : Std.OrientedOrd Nat).eq_swap
    · rfl
    · rfl
    · exact (inferInstance : Std.OrientedCmp cmpStr).eq_swap
  isLE_trans {a b c} := by
    rcases a with m | x <;> rcases b with n | y <;> rcases c with k | z <;>
      simp only [compareKey, Ordering.isLE_lt, Ordering.isLE_gt, Bool.false_eq_true, imp_self,
        implies_true, false_implies]
    · exact Std.TransCmp.isLE_trans
    · exact Std.TransCmp.isLE_trans

theorem compareComponent_eq_key {x y : List Char}
    (h : (parseU64 x).isSome = (parseU64 y).isSome) :
    compareComponent x y = compareKey (componentKey x) (componentKey y) := by
  unfold compareComponent componentKey
  cases hx : parseU64 x <;> cases hy : parseU64 y <;> simp_all [compareKey]

/-- On component lists of one shape the loop IS the lexicographic comparison of keys. -/
theorem compareLoop_eq_compareLex (shape : Nat → Bool) :
    ∀ (xs ys : List (List Char)),
      (∀ i x, xs[i]? = some x → (parseU64 x).isSome = shape i) →
      (∀ i y, ys[i]? = some y → (parseU64 y).isSome = shape i) →
      compareLoop xs ys =
        List.compareLex compareKey (xs.map componentKey) (ys.map componentKey) := by
  intro xs
  induction xs generalizing shape with
  | nil =>
      intro ys _ _
      cases ys <;> rfl
  | cons x xs ih =>
      intro ys hx hy
      cases ys with
      | nil => rfl
      | cons y ys =>
          have hkey : compareComponent x y = compareKey (componentKey x) (componentKey y) :=
            compareComponent_eq_key ((hx 0 x rfl).trans (hy 0 y rfl).symm)
          have htail := ih (fun i => shape (i + 1)) ys (fun i z hz => hx (i + 1) z hz)
            (fun i z hz => hy (i + 1) z hz)
          simp only [compareLoop, List.map_cons, List.compareLex_cons_cons, ← hkey, htail]
          cases compareComponent x y <;> rfl

theorem compareVersions_eq_compareLex {shape : Nat → Bool} {a b : String}
    (ha : Conforms shape a) (hb : Conforms shape b) :
    compareVersions a b = List.compareLex compareKey
      ((components a).map componentKey) ((components b).map componentKey) :=
  compareLoop_eq_compareLex shape _ _ ha hb

/-- **Transitivity on one shape**: the law the rollback watermark needs. -/
theorem compareVersions_gt_trans {shape : Nat → Bool} {a b c : String}
    (ha : Conforms shape a) (hb : Conforms shape b) (hc : Conforms shape c)
    (hab : compareVersions a b = .gt) (hbc : compareVersions b c = .gt) :
    compareVersions a c = .gt := by
  rw [compareVersions_eq_compareLex ha hb] at hab
  rw [compareVersions_eq_compareLex hb hc] at hbc
  rw [compareVersions_eq_compareLex ha hc]
  exact Std.TransCmp.gt_trans hab hbc

/-! ## §3 Numeric versions. -/

/-- `v` is written as `parts`, with dots between them: digit strings, each the text of a `u64`. -/
structure Dotted (v : String) (parts : List (List Char)) : Prop where
  text : v.toList = ['.'].intercalate parts
  ne_nil : parts ≠ []
  part_ne_nil : ∀ x ∈ parts, x ≠ []
  isDigit : ∀ x ∈ parts, ∀ c ∈ x, c.isDigit = true
  value_lt : ∀ x ∈ parts, Nat.ofDigitChars 10 x 0 < 2 ^ 64

/-- The numbers that the parts write. -/
def values (parts : List (List Char)) : List Nat := parts.map fun x => Nat.ofDigitChars 10 x 0

variable {a b c : String} {xs ys zs : List (List Char)}

theorem Dotted.components_eq (h : Dotted a xs) : components a = xs := by
  have hdot : ∀ x ∈ xs, '.' ∉ x := by
    intro x hx hmem
    exact absurd (h.isDigit x hx '.' hmem) (by decide)
  rw [components, h.text, split_intercalate h.ne_nil hdot]

theorem Dotted.parse (h : Dotted a xs) {x : List Char} (hx : x ∈ xs) :
    parseU64 x = some (Nat.ofDigitChars 10 x 0) :=
  parseU64_of_isDigit (h.part_ne_nil x hx) (h.isDigit x hx) (h.value_lt x hx)

/-- The loop on parts that parse, whatever lists they are the tails of. -/
theorem compareLoop_values (hxs : ∀ x ∈ xs, parseU64 x = some (Nat.ofDigitChars 10 x 0))
    (hys : ∀ y ∈ ys, parseU64 y = some (Nat.ofDigitChars 10 y 0)) :
    compareLoop xs ys = List.compareLex compare (values xs) (values ys) := by
  induction xs generalizing ys with
  | nil => cases ys <;> rfl
  | cons x xs ih =>
      cases ys with
      | nil => rfl
      | cons y ys =>
          have hhead : compareComponent x y =
              compare (Nat.ofDigitChars 10 x 0) (Nat.ofDigitChars 10 y 0) := by
            rw [compareComponent, hxs x List.mem_cons_self, hys y List.mem_cons_self]
          have htail := ih (fun z hz => hxs z (List.mem_cons_of_mem x hz))
            (fun z hz => hys z (List.mem_cons_of_mem y hz))
          simp only [values] at htail
          simp only [compareLoop, values, List.map_cons, List.compareLex_cons_cons, ← hhead, htail]
          cases compareComponent x y <;> rfl

theorem compareVersions_values (ha : Dotted a xs) (hb : Dotted b ys) :
    compareVersions a b = List.compareLex compare (values xs) (values ys) := by
  rw [compareVersions, ha.components_eq, hb.components_eq]
  exact compareLoop_values (fun _ hx => ha.parse hx) (fun _ hy => hb.parse hy)

/-- **The numeric order.** On versions that are written with numbers below `2^64`, of any length and with
any leading zeros, `compare_versions` is the lexicographic order of the numbers; so it is reflexive, turns
round with its arguments, and is transitive. -/
theorem compareVersions_numeric (ha : Dotted a xs) (hb : Dotted b ys) (hc : Dotted c zs) :
    compareVersions a b = List.compareLex compare (values xs) (values ys) ∧
      compareVersions a a = .eq ∧
      compareVersions b a = (compareVersions a b).swap ∧
      (compareVersions a b = .lt → compareVersions b c = .lt → compareVersions a c = .lt) ∧
      ((compareVersions a b).isLE = true → (compareVersions b c).isLE = true →
        (compareVersions a c).isLE = true) := by
  rw [compareVersions_values ha hb, compareVersions_values ha ha, compareVersions_values hb ha,
    compareVersions_values hb hc, compareVersions_values ha hc]
  exact ⟨rfl, Std.ReflCmp.compare_self, Std.OrientedCmp.eq_swap, Std.TransCmp.lt_trans,
    Std.TransCmp.isLE_trans⟩

/-- `1.09`, `1.10` and `1.10.0`. -/
theorem compareVersions_leadingZero :
    Dotted "1.09" [['1'], ['0', '9']] ∧ Dotted "1.10" [['1'], ['1', '0']] ∧
      Dotted "1.10.0" [['1'], ['1', '0'], ['0']] ∧
      compareVersions "1.09" "1.10" = List.compareLex compare [1, 9] [1, 10] ∧
      compareVersions "1.09" "1.10.0" = .lt := by
  have h9 : Dotted "1.09" [['1'], ['0', '9']] :=
    ⟨by decide, by decide, by decide, by simp, by decide⟩
  have h10 : Dotted "1.10" [['1'], ['1', '0']] :=
    ⟨by decide, by decide, by decide, by simp, by decide⟩
  have h100 : Dotted "1.10.0" [['1'], ['1', '0'], ['0']] :=
    ⟨by decide, by decide, by decide, by simp, by decide⟩
  obtain ⟨hvalues, -, -, htrans, -⟩ := compareVersions_numeric h9 h10 h100
  exact ⟨h9, h10, h100, hvalues, htrans (by decide) (by decide)⟩

end Edgewarden.Ota
