/-
# Edgewarden.Lib.Json — JSON values and the part of a serde codec that decides round trips.

A file is the JSON VALUE it holds: printing and parsing are taken to lose nothing, which is what a
serializer does for strings and integers. The one place where encoding is not injective is a
non-finite `f64`, which is written as `null`, and `null` is refused where a float is expected.

That a FINITE float is read back exactly is an assumption of `Codec.f64`. A parser that rounds
faster than exactly may be a unit in the last place off; where that matters, what it reads is a
parameter (`Registry.PowerLoss`).

A `Codec` is an encoder with a partial decoder; `Codec.Survives` says that a value comes back.
`Json.members` is what a derived decoder of a struct accepts from others.
Nothing in this module is about a particular program.
-/
import Mathlib.Algebra.Ring.Int.Defs
import Mathlib.Algebra.Ring.Nat
import Mathlib.Data.List.Basic
import Mathlib.Data.List.Nodup
import Mathlib.Tactic.Common

namespace Edgewarden.Serde

/-! ## §1 Values. -/

/-- An IEEE-754 double, by its bits. -/
structure F64 where
  bits : UInt64
  deriving DecidableEq, Repr

/-- Not all exponent bits are set. -/
def F64.isFinite (x : F64) : Bool := decide ((x.bits >>> 52) &&& 0x7FF ≠ 0x7FF)

def F64.zero : F64 := ⟨0⟩

def F64.nan : F64 := ⟨0x7FF8000000000000⟩

inductive Json
  | null
  | bool (b : Bool)
  | int (n : Int)
  | float (x : F64)
  | str (s : String)
  | arr (items : List Json)
  | obj (fields : List (String × Json))

/-- The member of an object under a name. -/
def Json.field : Json → String → Option Json
  | .obj fields, name => fields.lookup name
  | _, _ => none

/-- The members of a struct with the fields `names`, in the form of an object. A derived decoder takes an object
in which none of them occurs twice, or an array of their values in order, which may end early. -/
def Json.members (names : List String) : Json → Option Json
  | .obj fields => if ∀ name ∈ names, (fields.map Prod.fst).count name ≤ 1 then some (.obj fields) else none
  | .arr items => if items.length ≤ names.length then some (.obj (names.zip items)) else none
  | _ => none

theorem names_zip_sublist (names : List String) (items : List Json) :
    ((names.zip items).map Prod.fst).Sublist names := by
  induction names generalizing items with
  | nil => exact List.nil_sublist _
  | cons name names ih =>
      cases items with
      | nil => exact List.nil_sublist _
      | cons item items => exact (ih items).cons_cons name

/-- **An array is the object that names its items**, if the names are different. -/
theorem Json.members_arr {names : List String} (hnames : names.Nodup) {items : List Json}
    (hlen : items.length ≤ names.length) :
    (Json.arr items).members names = (Json.obj (names.zip items)).members names := by
  have honce : ∀ name ∈ names, ((names.zip items).map Prod.fst).count name ≤ 1 := by
    intro name _
    exact List.nodup_iff_count_le_one.mp (hnames.sublist (names_zip_sublist names items)) name
  simp only [Json.members, if_pos hlen, if_pos honce]

/-! ## §2 Codecs. -/

structure Codec (α : Type) where
  encode : α → Json
  decode : Json → Option α

/-- The value survives being written and read back. -/
def Codec.Survives {α : Type} (c : Codec α) (a : α) : Prop := c.decode (c.encode a) = some a

/-- The member of an object under a name, decoded. -/
def Codec.get {α : Type} (c : Codec α) (j : Json) (name : String) : Option α :=
  (j.field name).bind c.decode

/-- The same for a member that may be missing. -/
def Codec.getOr {α : Type} (c : Codec α) (a : α) (j : Json) (name : String) : Option α :=
  match j.field name with
  | none => some a
  | some member => c.decode member

namespace Codec

@[simp] theorem get_head {α : Type} (c : Codec α) (name : String) (j : Json)
    (rest : List (String × Json)) : c.get (.obj ((name, j) :: rest)) name = c.decode j := by
  simp [Codec.get, Json.field]

theorem get_tail {α : Type} (c : Codec α) {name other : String} (h : name ≠ other) (j : Json)
    (rest : List (String × Json)) :
    c.get (.obj ((other, j) :: rest)) name = c.get (.obj rest) name := by
  have hne : (name == other) = false := by simp [h]
  simp [Codec.get, Json.field, List.lookup_cons, hne]

@[simp] theorem getOr_head {α : Type} (c : Codec α) (a : α) (name : String) (j : Json)
    (rest : List (String × Json)) : c.getOr a (.obj ((name, j) :: rest)) name = c.decode j := by
  simp [Codec.getOr, Json.field]

theorem getOr_tail {α : Type} (c : Codec α) (a : α) {name other : String} (h : name ≠ other) (j : Json)
    (rest : List (String × Json)) :
    c.getOr a (.obj ((other, j) :: rest)) name = c.getOr a (.obj rest) name := by
  have hne : (name == other) = false := by simp [h]
  simp [Codec.getOr, Json.field, List.lookup_cons, hne]

def string : Codec String where
  encode := .str
  decode
    | .str s => some s
    | _ => none

/-- A counter. -/
def nat : Codec Nat where
  encode n := .int n
  decode
    | .int n => if 0 ≤ n then some n.toNat else none
    | _ => none

def u64 : Codec UInt64 where
  encode n := .int n.toNat
  decode
    | .int n => if 0 ≤ n ∧ n < 2 ^ 64 then some (UInt64.ofNat n.toNat) else none
    | _ => none

def u32 : Codec UInt32 where
  encode n := .int n.toNat
  decode
    | .int n => if 0 ≤ n ∧ n < 2 ^ 32 then some (UInt32.ofNat n.toNat) else none
    | _ => none

def i32 : Codec Int32 where
  encode n := .int n.toInt
  decode
    | .int n => if -2 ^ 31 ≤ n ∧ n < 2 ^ 31 then some (Int32.ofInt n) else none
    | _ => none

/-- A finite float is taken to be read back as it was printed. -/
def f64 : Codec F64 where
  encode x := if x.isFinite then .float x else .null
  decode
    | .float x => some x
    | _ => none

/-- `Option<T>`: `null` for `None`. -/
def option {α : Type} (c : Codec α) : Codec (Option α) where
  encode
    | none => .null
    | some a => c.encode a
  decode
    | .null => some none
    | j => (c.decode j).map some

/-- `Vec<T>`. -/
def list {α : Type} (c : Codec α) : Codec (List α) where
  encode l := .arr (l.map c.encode)
  decode
    | .arr items => items.mapM c.decode
    | _ => none

/-! ## §3 Round trips. -/

@[simp] theorem string_survives (s : String) : string.decode (string.encode s) = some s := rfl

@[simp] theorem nat_survives (n : Nat) : nat.decode (nat.encode n) = some n := by
  simp [nat]

@[simp] theorem u64_survives (n : UInt64) : u64.decode (u64.encode n) = some n := by
  have hlt : n.toNat < 2 ^ 64 := n.toNat_lt
  have hrange : (0 : Int) ≤ n.toNat ∧ (n.toNat : Int) < 2 ^ 64 := by omega
  simp only [u64, if_pos hrange, Int.toNat_natCast, UInt64.ofNat_toNat]

@[simp] theorem u32_survives (n : UInt32) : u32.decode (u32.encode n) = some n := by
  have hlt : n.toNat < 2 ^ 32 := n.toNat_lt
  have hrange : (0 : Int) ≤ n.toNat ∧ (n.toNat : Int) < 2 ^ 32 := by omega
  simp only [u32, if_pos hrange, Int.toNat_natCast, UInt32.ofNat_toNat]

@[simp] theorem i32_survives (n : Int32) : i32.decode (i32.encode n) = some n := by
  have hlo : -2 ^ 31 ≤ n.toInt := n.le_toInt
  have hhi : n.toInt < 2 ^ 31 := n.toInt_lt
  simp only [i32, if_pos (And.intro hlo hhi), Int32.ofInt_toInt]

/-- **A float survives exactly when it is finite**; otherwise decoding fails. -/
@[simp] theorem f64_decode_encode (x : F64) :
    f64.decode (f64.encode x) = if x.isFinite then some x else none := by
  by_cases h : x.isFinite = true
  · simp only [f64, if_pos h]
  · simp only [f64, if_neg h]

theorem option_survives {α : Type} {c : Codec α} (hnull : ∀ a, c.encode a ≠ .null)
    (h : ∀ a, c.Survives a) (o : Option α) : (option c).Survives o := by
  cases o with
  | none => rfl
  | some a =>
      have hdec : (option c).decode (c.encode a) = (c.decode (c.encode a)).map some := by
        cases hj : c.encode a with
        | null => exact absurd hj (hnull a)
        | _ => rfl
      show (option c).decode (c.encode a) = some (some a)
      rw [hdec, h a]
      rfl

/-- **A list survives exactly when each of its elements does**; otherwise decoding fails, if a lost
element fails to decode. -/
theorem list_decode_encode {α : Type} {c : Codec α} {p : α → Bool}
    (h : ∀ a, c.decode (c.encode a) = if p a then some a else none) (l : List α) :
    (list c).decode ((list c).encode l) = if l.all p then some l else none := by
  show (l.map c.encode).mapM c.decode = _
  induction l with
  | nil => rfl
  | cons a l ih =>
      rw [List.map_cons, List.mapM_cons, ih, h]
      by_cases ha : p a = true
      · by_cases hl : l.all p = true
        · simp [ha, hl]
        · simp [ha, hl]
      · simp [ha]

end Codec

end Edgewarden.Serde
