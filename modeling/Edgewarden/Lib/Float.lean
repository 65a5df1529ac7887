/-
# Edgewarden.Lib.Float — comparing and printing doubles.

Every finite double is a whole number of units of `2 ^ -1074`, so comparison and decimal rounding are
exact arithmetic on integers. Infinity has the magnitude that its bits would have as a finite number,
which is larger than that of every finite one; a NaN compares with nothing.

Nothing in this module is about a particular program.
-/
import Edgewarden.Lib.Json

namespace Edgewarden.Serde.F64

/-! ## §1 Fields. -/

def negative (x : F64) : Bool := decide (2 ^ 63 ≤ x.bits.toNat)

def exponent (x : F64) : Nat := x.bits.toNat / 2 ^ 52 % 2 ^ 11

def fraction (x : F64) : Nat := x.bits.toNat % 2 ^ 52

def isNaN (x : F64) : Bool := decide (x.exponent = 2047 ∧ x.fraction ≠ 0)

def isInfinite (x : F64) : Bool := decide (x.exponent = 2047 ∧ x.fraction = 0)

/-- The absolute value, in units of `2 ^ -1074`. -/
def magnitude (x : F64) : Nat :=
  if x.exponent = 0 then x.fraction else (2 ^ 52 + x.fraction) * 2 ^ (x.exponent - 1)

def scaled (x : F64) : Int := if x.negative then -(x.magnitude : Int) else x.magnitude

/-! ## §2 Comparison. -/

/-- `x < y`: false if either side is a NaN, and `-0.0` is not less than `0.0`. -/
def lt (x y : F64) : Bool := !x.isNaN && !y.isNaN && decide (x.scaled < y.scaled)

/-- `x <= y`: false if either side is a NaN. -/
def le (x y : F64) : Bool := !x.isNaN && !y.isNaN && decide (x.scaled ≤ y.scaled)

theorem le_eq_false_of_isNaN_left {x y : F64} (h : x.isNaN = true) : x.le y = false := by
  simp [le, h]

theorem le_eq_false_of_isNaN_right {x y : F64} (h : y.isNaN = true) : x.le y = false := by
  simp [le, h]

theorem le_eq_false_of_lt {x y : F64} (h : y.lt x = true) : x.le y = false := by
  simp only [lt, Bool.and_eq_true, decide_eq_true_eq] at h
  simp only [le, Bool.and_eq_false_iff, decide_eq_false_iff_not, Int.not_le]
  exact .inr h.2

/-- **Between numbers one of the two comparisons holds.** -/
theorem lt_eq_false_iff_le {x y : F64} (hx : x.isNaN = false) (hy : y.isNaN = false) :
    y.lt x = false ↔ x.le y = true := by
  simp [lt, le, hx, hy]

/-! ## §3 Decimal output. -/

/-- `n / d`, rounded to the nearest whole number, to the even one in the middle. -/
def roundDiv (n d : Nat) : Nat :=
  if d < 2 * (n % d) ∨ (d = 2 * (n % d) ∧ n / d % 2 = 1) then n / d + 1 else n / d

/-- The last `width` decimal digits of `n`. -/
def digits : Nat → Nat → List Char
  | 0, _ => []
  | width + 1, n => digits width (n / 10) ++ [Nat.digitChar (n % 10)]

/-- `format!("{:.places$}", x)`. -/
def toFixed (places : Nat) (x : F64) : String :=
  if x.isNaN then "NaN"
  else
    let sign := if x.negative then "-" else ""
    if x.isInfinite then sign ++ "inf"
    else
      let n := roundDiv (x.magnitude * 10 ^ places) (2 ^ 1074)
      let point := if places = 0 then "" else "."
      sign ++ toString (n / 10 ^ places) ++ point ++ String.ofList (digits places n)

end Edgewarden.Serde.F64
