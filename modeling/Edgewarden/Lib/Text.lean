/-
# Edgewarden.Lib.Text — the text primitives of Rust's standard library and of the `hex` crate.

Strings are read as their list of `char`s. `str` comparison is bytewise in Rust; UTF-8 keeps
code-point order, so it is the lexicographic order on `char`s here (`cmpStr`). Every function is
structurally recursive, so concrete inputs evaluate in the kernel.
-/
import Mathlib.Algebra.Group.Nat.Defs
import Mathlib.Data.List.Basic
import Mathlib.Order.Compare
import Mathlib.Tactic.Common

namespace Edgewarden.Text

/-- `str::split(sep)`: always at least one piece, empty pieces kept. -/
def split (sep : Char) : List Char → List (List Char)
  | [] => [[]]
  | c :: cs =>
      if c = sep then [] :: split sep cs
      else
        match split sep cs with
        | [] => [[c]]
        | piece :: rest => (c :: piece) :: rest

/-- The value of an ASCII decimal digit. -/
def digitVal (c : Char) : Option Nat :=
  if '0' ≤ c ∧ c ≤ '9' then some (c.toNat - '0'.toNat) else none

/-- The digit loop of `u64::from_str`: a non-digit or an overflow past `u64::MAX` is an error. -/
def parseDigits : Nat → List Char → Option Nat
  | acc, [] => some acc
  | acc, c :: cs =>
      match digitVal c with
      | none => none
      | some v => if acc * 10 + v < 2 ^ 64 then parseDigits (acc * 10 + v) cs else none

/-- `str::parse::<u64>()`. One leading `+` is accepted, a sign or nothing alone is not. -/
def parseU64 : List Char → Option Nat
  | [] => none
  | c :: cs =>
      if c = '+' then (if cs = [] then none else parseDigits 0 cs)
      else parseDigits 0 (c :: cs)

/-- `str::cmp`. -/
def cmpStr (a b : List Char) : Ordering := List.compareLex compare a b

/-- The `White_Space` property, as `char::is_whitespace` reads it. -/
def isWhitespace (c : Char) : Bool :=
  let n := c.toNat
  (9 ≤ n && n ≤ 13) || n == 32 || n == 0x85 || n == 0xA0 || n == 0x1680 ||
    (0x2000 ≤ n && n ≤ 0x200A) || n == 0x2028 || n == 0x2029 || n == 0x202F || n == 0x205F ||
    n == 0x3000

/-- `str::trim`. -/
def trim (s : List Char) : List Char :=
  ((s.dropWhile isWhitespace).reverse.dropWhile isWhitespace).reverse

/-- `str::to_lowercase`, on ASCII letters. No other character lowercases to a hexadecimal digit, so
a comparison with a hexadecimal string does not see the difference. -/
def toLowercase (s : List Char) : List Char := s.map Char.toLower

/-- A lower-case hexadecimal digit. -/
def hexDigit (n : Nat) : Char :=
  if n < 10 then Char.ofNat ('0'.toNat + n) else Char.ofNat ('a'.toNat + (n - 10))

/-- `hex::encode`. -/
def hexEncode (bytes : List UInt8) : List Char :=
  bytes.flatMap fun b => [hexDigit (b.toNat / 16), hexDigit (b.toNat % 16)]

/-- The value of a hexadecimal digit of either case. -/
def hexVal (c : Char) : Option Nat :=
  if '0' ≤ c ∧ c ≤ '9' then some (c.toNat - '0'.toNat)
  else if 'a' ≤ c ∧ c ≤ 'f' then some (c.toNat - 'a'.toNat + 10)
  else if 'A' ≤ c ∧ c ≤ 'F' then some (c.toNat - 'A'.toNat + 10)
  else none

/-- `hex::decode`: an odd length or a character that is no digit is an error. -/
def hexDecode : List Char → Option (List UInt8)
  | [] => some []
  | [_] => none
  | hi :: lo :: rest =>
      match hexVal hi, hexVal lo, hexDecode rest with
      | some h, some l, some bytes => some (UInt8.ofNat (h * 16 + l) :: bytes)
      | _, _, _ => none

/-! ## Round trips. -/

theorem hexVal_hexDigit {n : Nat} (h : n < 16) : hexVal (hexDigit n) = some n := by
  revert n
  decide

theorem hexDigit_not_whitespace {n : Nat} (h : n < 16) : isWhitespace (hexDigit n) = false := by
  revert n
  decide

theorem hexEncode_cons (b : UInt8) (bytes : List UInt8) :
    hexEncode (b :: bytes) =
      hexDigit (b.toNat / 16) :: hexDigit (b.toNat % 16) :: hexEncode bytes := rfl

theorem hexDecode_hexEncode (bytes : List UInt8) : hexDecode (hexEncode bytes) = some bytes := by
  induction bytes with
  | nil => rfl
  | cons b bytes ih =>
      have hlt : b.toNat < 256 := b.toNat_lt
      have hhi : hexVal (hexDigit (b.toNat / 16)) = some (b.toNat / 16) :=
        hexVal_hexDigit (by omega)
      have hlo : hexVal (hexDigit (b.toNat % 16)) = some (b.toNat % 16) :=
        hexVal_hexDigit (by omega)
      have hsum : b.toNat / 16 * 16 + b.toNat % 16 = b.toNat := by omega
      rw [hexEncode_cons, hexDecode, hhi, hlo, ih]
      simp only [hsum, UInt8.ofNat_toNat]

/-- Text without whitespace is trimmed already. -/
theorem trim_of_forall {s : List Char} (h : ∀ c ∈ s, isWhitespace c = false) : trim s = s := by
  have hdrop : ∀ t : List Char, (∀ c ∈ t, isWhitespace c = false) → t.dropWhile isWhitespace = t := by
    intro t ht
    cases t with
    | nil => rfl
    | cons c t => rw [List.dropWhile_cons_of_neg (by simp [ht c List.mem_cons_self])]
  unfold trim
  rw [hdrop s h, hdrop s.reverse (fun c hc => h c (List.mem_reverse.mp hc)), List.reverse_reverse]

theorem trim_hexEncode (bytes : List UInt8) : trim (hexEncode bytes) = hexEncode bytes := by
  refine trim_of_forall ?_
  intro c hc
  obtain ⟨b, _, hb⟩ := List.mem_flatMap.mp hc
  have hlt : b.toNat < 256 := b.toNat_lt
  simp only [List.mem_cons, List.not_mem_nil, or_false] at hb
  rcases hb with rfl | rfl
  · exact hexDigit_not_whitespace (by omega)
  · exact hexDigit_not_whitespace (by omega)

theorem digitVal_of_isDigit {c : Char} (h : c.isDigit = true) : digitVal c = some (c.toNat - '0'.toNat) := by
  have hbounds : '0' ≤ c ∧ c ≤ '9' := by
    simpa [Char.isDigit, Char.le_def] using h
  exact if_pos hbounds

/-- Reading on never makes the number smaller. -/
theorem le_ofDigitChars (cs : List Char) (acc : Nat) : acc ≤ Nat.ofDigitChars 10 cs acc := by
  induction cs generalizing acc with
  | nil => simp
  | cons c cs ih =>
      rw [Nat.ofDigitChars_cons]
      have := ih (10 * acc + (c.toNat - '0'.toNat))
      omega

/-- Digits that do not overflow are read as the number they write. -/
theorem parseDigits_of_isDigit {cs : List Char} (hdigits : ∀ c ∈ cs, c.isDigit = true) {acc : Nat}
    (hlt : Nat.ofDigitChars 10 cs acc < 2 ^ 64) : parseDigits acc cs = some (Nat.ofDigitChars 10 cs acc) := by
  induction cs generalizing acc with
  | nil => simp [parseDigits]
  | cons c cs ih =>
      rw [Nat.ofDigitChars_cons, Nat.mul_comm] at hlt ⊢
      have hsmall := le_ofDigitChars cs (acc * 10 + (c.toNat - '0'.toNat))
      rw [parseDigits, digitVal_of_isDigit (hdigits c List.mem_cons_self)]
      simp only
      rw [if_pos (by omega)]
      exact ih (fun c' hc' => hdigits c' (List.mem_cons_of_mem c hc')) hlt

/-- **Digits are read as the number they write**, if that is a `u64`. Leading zeros are digits. -/
theorem parseU64_of_isDigit {cs : List Char} (hne : cs ≠ []) (hdigits : ∀ c ∈ cs, c.isDigit = true)
    (hlt : Nat.ofDigitChars 10 cs 0 < 2 ^ 64) : parseU64 cs = some (Nat.ofDigitChars 10 cs 0) := by
  cases cs with
  | nil => exact absurd rfl hne
  | cons c cs =>
      -- a sign would be dropped, but a digit is none
      have hplus : c ≠ '+' := by
        rintro rfl
        exact absurd (hdigits '+' List.mem_cons_self) (by decide)
      rw [parseU64, if_neg hplus]
      exact parseDigits_of_isDigit hdigits hlt

/-- **A `u64` that is written in decimal is read back.** -/
theorem parseU64_toString {n : Nat} (h : n < 2 ^ 64) : parseU64 (toString n).toList = some n := by
  have htext : (toString n).toList = Nat.toDigits 10 n := Nat.toList_repr
  have hdigits : ∀ c ∈ Nat.toDigits 10 n, c.isDigit = true :=
    fun c hc => Nat.isDigit_of_mem_toDigits (by omega) (by omega) hc
  have hvalue : Nat.ofDigitChars 10 (Nat.toDigits 10 n) 0 = n := Nat.ofDigitChars_ten_toDigits
  rw [htext, parseU64_of_isDigit Nat.toDigits_ne_nil hdigits (by omega), hvalue]

/-- `split` is core's `List.splitOn`, in the order of the arguments of the source. -/
theorem split_eq_splitOn (sep : Char) (s : List Char) : split sep s = s.splitOn sep := by
  induction s with
  | nil => rfl
  | cons c s ih =>
      rw [List.splitOn_cons_eq_if_modifyHead, split, ih]
      by_cases h : c = sep
      · simp [h]
      · simp only [h, if_false, beq_iff_eq]
        cases hs : s.splitOn sep with
        | nil => exact absurd hs (List.splitOn_ne_nil sep s)
        | cons piece rest => rfl

/-- **Splitting undoes joining**, for pieces without the separator. -/
theorem split_intercalate {sep : Char} {pieces : List (List Char)} (hne : pieces ≠ [])
    (hsep : ∀ piece ∈ pieces, sep ∉ piece) : split sep ([sep].intercalate pieces) = pieces := by
  rw [split_eq_splitOn, List.splitOn_intercalate sep hsep hne]

end Edgewarden.Text
