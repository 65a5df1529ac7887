/-
# Edgewarden.Protocol.Backoff — `edge-protocol/src/lib.rs`: the jittered reconnect delay.

`next_delay` and `delay_for_attempt` compute one envelope twice: `base` shifted left by the attempt, capped.
The first takes the attempt from a counter that saturates and draws a jitter; the second is what its tests
look at. Both count in whole milliseconds, in `u128`, and narrow to `u64` at the end.

* `next_delay_envelope`: in every run of `next_delay` and `reset`, a delay lies between half of the envelope
  and the envelope of the attempt it is for, and nothing overflows on the way.
* `delay_follows_formula_iff`: the exponent is clamped to 10, which the formula in the doc comment,
  `min(cap, base * 2^attempt)`, is not. `slow_growth_stalls` is a base and a cap that differ by more.
-/
import Edgewarden.Lib.Machine
import Mathlib.Algebra.Group.Nat.Defs

namespace Edgewarden.Protocol

open Edgewarden.Calls

/-! ## §1 `std::time::Duration`, and the integers of the source. -/

/-- `u128::saturating_mul`. -/
def saturatingMul (a b : Nat) : Nat := min (a * b) (2 ^ 128 - 1)

/-- `u32::saturating_add`. -/
def saturatingAdd (a b : UInt32) : UInt32 := UInt32.ofNat (min (a.toNat + b.toNat) (2 ^ 32 - 1))

/-- Whole seconds and the nanoseconds of the last one. -/
structure Duration where
  secs : UInt64
  nanos : UInt32
  nanos_lt : nanos.toNat < 1000000000

/-- `as_millis`, a `u128`. -/
def Duration.asMillis (d : Duration) : Nat :=
  (d.secs.toNat * 1000 + d.nanos.toNat / 1000000) % 2 ^ 128

def Duration.fromMillis (millis : UInt64) : Duration where
  secs := UInt64.ofNat (millis.toNat / 1000)
  nanos := UInt32.ofNat (millis.toNat % 1000 * 1000000)
  nanos_lt := by
    have hlt : millis.toNat % 1000 * 1000000 < 1000000000 := by omega
    rw [UInt32.toNat_ofNat', Nat.mod_eq_of_lt (by omega)]
    exact hlt

def Duration.fromSecs (secs : UInt64) : Duration := ⟨secs, 0, by decide⟩

theorem asMillis_eq (d : Duration) :
    d.asMillis = d.secs.toNat * 1000 + d.nanos.toNat / 1000000 ∧
      d.secs.toNat * 1000 + d.nanos.toNat / 1000000 < 2 ^ 74 := by
  have hsecs := d.secs.toNat_lt
  have hnanos := d.nanos_lt
  unfold Duration.asMillis
  omega

theorem asMillis_lt (d : Duration) : d.asMillis < 2 ^ 74 := by
  have := asMillis_eq d
  omega

@[simp] theorem asMillis_fromMillis (millis : UInt64) : (Duration.fromMillis millis).asMillis = millis.toNat := by
  have hlt := millis.toNat_lt
  have hnanos : millis.toNat % 1000 * 1000000 < 2 ^ 32 := by omega
  rw [(asMillis_eq _).1]
  simp only [Duration.fromMillis, UInt64.toNat_ofNat', UInt32.toNat_ofNat']
  rw [Nat.mod_eq_of_lt hnanos, Nat.mod_eq_of_lt (by omega)]
  omega

/-! ## §2 The source. -/

structure Backoff where
  base : Duration
  cap : Duration
  attempt : UInt32

namespace Backoff

def new (base cap : Duration) : Backoff := ⟨base, cap, 0⟩

/-- `gen_range(0..=hi)`, for the `hi` it is called with: some number of the range. -/
abbrev GenRange := (hi : Nat) → Fin (hi + 1)

def nextDelay (b : Backoff) (genRange : GenRange) : Duration × Backoff :=
  let exp := saturatingMul b.base.asMillis ((1 <<< min b.attempt.toNat 10) % 2 ^ 128)
  let capped := min exp b.cap.asMillis
  -- the range is not empty, also for a cap below a millisecond
  let jitter : Nat := genRange (max capped 1)
  (.fromMillis (UInt64.ofNat (min ((capped / 2 + jitter / 2) % 2 ^ 128) capped)),
    { b with attempt := saturatingAdd b.attempt 1 })

/-- "Deterministic variant for tests." -/
def delayForAttempt (base cap : Duration) (attempt : UInt32) : Duration :=
  let exp := saturatingMul base.asMillis ((1 <<< min attempt.toNat 10) % 2 ^ 128)
  .fromMillis (UInt64.ofNat (min exp cap.asMillis))

def reset (b : Backoff) : Backoff := { b with attempt := 0 }

def attempts (b : Backoff) : UInt32 := b.attempt

end Backoff

/-! ## §3 Nothing overflows. -/

section Envelope

variable {base cap : Duration}

open Backoff

/-- The envelope: what both functions call `capped`, computed without bounds. -/
def envelope (base cap : Duration) (attempt : Nat) : Nat :=
  min (base.asMillis * 2 ^ min attempt 10) cap.asMillis

theorem shift_le (n : Nat) : 2 ^ min n 10 ≤ 2 ^ 10 := Nat.pow_le_pow_right (by omega) (by omega)

/-- The multiplication saturates for no base. -/
theorem product_lt (base : Duration) (n : Nat) : base.asMillis * 2 ^ min n 10 < 2 ^ 128 := by
  have hbase := asMillis_lt base
  calc base.asMillis * 2 ^ min n 10 ≤ base.asMillis * 2 ^ 10 := Nat.mul_le_mul_left _ (shift_le n)
    _ < 2 ^ 128 := by omega

theorem exp_eq (base : Duration) (n : Nat) :
    saturatingMul base.asMillis ((1 <<< min n 10) % 2 ^ 128) = base.asMillis * 2 ^ min n 10 := by
  have hshift := shift_le n
  have hproduct := product_lt base n
  rw [Nat.one_shiftLeft, Nat.mod_eq_of_lt (by omega), saturatingMul]
  omega

theorem envelope_le_cap (base cap : Duration) (n : Nat) : envelope base cap n ≤ cap.asMillis := by
  unfold envelope
  omega

theorem envelope_mono (base cap : Duration) {m n : Nat} (h : m ≤ n) :
    envelope base cap m ≤ envelope base cap n := by
  have hpow : 2 ^ min m 10 ≤ 2 ^ min n 10 := Nat.pow_le_pow_right (by omega) (by omega)
  have hmul := Nat.mul_le_mul_left base.asMillis hpow
  unfold envelope
  omega

/-- The deterministic path. -/
theorem delayForAttempt_asMillis (base : Duration) (hcap : cap.asMillis ≤ 2 ^ 64 - 1) (attempt : UInt32) :
    (delayForAttempt base cap attempt).asMillis = envelope base cap attempt.toNat := by
  have hle := envelope_le_cap base cap attempt.toNat
  simp only [delayForAttempt, asMillis_fromMillis, exp_eq]
  exact Nat.mod_eq_of_lt (by unfold envelope at hle; omega)

/-- The jittered path: half of the envelope and half of the draw. -/
theorem nextDelay_asMillis {b : Backoff} (hcap : b.cap.asMillis ≤ 2 ^ 64 - 1) (genRange : GenRange) :
    (b.nextDelay genRange).1.asMillis =
      min (envelope b.base b.cap b.attempt.toNat / 2 +
          (genRange (max (envelope b.base b.cap b.attempt.toNat) 1)).val / 2)
        (envelope b.base b.cap b.attempt.toNat) := by
  have hle := envelope_le_cap b.base b.cap b.attempt.toNat
  have hcapped : min (saturatingMul b.base.asMillis ((1 <<< min b.attempt.toNat 10) % 2 ^ 128))
      b.cap.asMillis = envelope b.base b.cap b.attempt.toNat := by
    rw [exp_eq, envelope]
  simp only [nextDelay, asMillis_fromMillis]
  rw [hcapped]
  generalize envelope b.base b.cap b.attempt.toNat = c at hle ⊢
  have hdraw := (genRange (max c 1)).isLt
  rw [UInt64.toNat_ofNat', Nat.mod_eq_of_lt (a := c / 2 + _) (by omega), Nat.mod_eq_of_lt (by omega)]

end Envelope

/-! ## §4 Runs. -/

/-- A method of a `Backoff` that changes it. -/
inductive Call
  | nextDelay (genRange : Backoff.GenRange)
  | reset

def Call.step (b : Backoff) : Call → Option Duration × Backoff
  | .nextDelay genRange => ((b.nextDelay genRange).1, (b.nextDelay genRange).2)
  | .reset => (none, b.reset)

def backoffMachine (base cap : Duration) : Machine Backoff Call (Option Duration) where
  init := .new base cap
  step := Call.step

/-- How many delays have been asked for since the last reset. -/
def sinceReset (calls : List Call) : Nat :=
  calls.foldl (fun k call =>
    match call with
    | .nextDelay _ => k + 1
    | .reset => 0) 0

section Runs

variable {base cap : Duration}

open Backoff

theorem saturatingAdd_one (a : UInt32) (k : Nat) (h : a.toNat = min k (2 ^ 32 - 1)) :
    (saturatingAdd a 1).toNat = min (k + 1) (2 ^ 32 - 1) := by
  have hone : (1 : UInt32).toNat = 1 := rfl
  rw [saturatingAdd, UInt32.toNat_ofNat', hone, Nat.mod_eq_of_lt (by omega)]
  omega

/-- **The counter.** It says how many delays there were since the last reset, as far as it can count. -/
theorem after_calls (base cap : Duration) (calls : List Call) :
    ((backoffMachine base cap).after calls).base = base ∧
      ((backoffMachine base cap).after calls).cap = cap ∧
      ((backoffMachine base cap).after calls).attempts.toNat = min (sinceReset calls) (2 ^ 32 - 1) := by
  induction calls using List.reverseRecOn with
  | nil => exact ⟨rfl, rfl, rfl⟩
  | append_singleton calls call ih =>
      obtain ⟨hbase, hcap, hattempt⟩ := ih
      rw [Machine.after_snoc, sinceReset, List.foldl_append, List.foldl_cons, List.foldl_nil]
      cases call with
      | nextDelay genRange => exact ⟨hbase, hcap, saturatingAdd_one _ _ hattempt⟩
      | reset => exact ⟨hbase, hcap, rfl⟩

/-- The `u128` operations of a delay stay below their limit, and what is narrowed to `u64` fits. -/
structure FitsWidths (base cap : Duration) (attempt : UInt32) (genRange : GenRange) : Prop where
  millis : base.asMillis = base.secs.toNat * 1000 + base.nanos.toNat / 1000000 ∧
    cap.asMillis = cap.secs.toNat * 1000 + cap.nanos.toNat / 1000000
  shift : 1 <<< min attempt.toNat 10 < 2 ^ 128
  product : base.asMillis * (1 <<< min attempt.toNat 10) < 2 ^ 128
  sum : envelope base cap attempt.toNat / 2 +
    (genRange (max (envelope base cap attempt.toNat) 1)).val / 2 < 2 ^ 128
  narrowed : envelope base cap attempt.toNat < 2 ^ 64
  exact : (delayForAttempt base cap attempt).asMillis = envelope base cap attempt.toNat

theorem fitsWidths (hcap : cap.asMillis ≤ 2 ^ 64 - 1) (attempt : UInt32) (genRange : GenRange) :
    FitsWidths base cap attempt genRange where
  millis := ⟨(asMillis_eq base).1, (asMillis_eq cap).1⟩
  shift := by
    have hshift := shift_le attempt.toNat
    rw [Nat.one_shiftLeft]
    omega
  product := by
    rw [Nat.one_shiftLeft]
    exact product_lt base attempt.toNat
  sum := by
    have hle := envelope_le_cap base cap attempt.toNat
    generalize envelope base cap attempt.toNat = c at hle ⊢
    have hdraw := (genRange (max c 1)).isLt
    omega
  narrowed := by
    have hle := envelope_le_cap base cap attempt.toNat
    omega
  exact := delayForAttempt_asMillis base hcap attempt

/-- Between half of the deterministic delay and all of it. -/
structure WithinEnvelope (base cap : Duration) (attempt : UInt32) (d : Duration) : Prop where
  lower : (delayForAttempt base cap attempt).asMillis / 2 ≤ d.asMillis
  upper : d.asMillis ≤ (delayForAttempt base cap attempt).asMillis
  capped : (delayForAttempt base cap attempt).asMillis ≤ cap.asMillis

theorem nextDelay_within {b : Backoff} (hcap : b.cap.asMillis ≤ 2 ^ 64 - 1) (genRange : GenRange) :
    WithinEnvelope b.base b.cap b.attempts (b.nextDelay genRange).1 := by
  have hdelay := delayForAttempt_asMillis b.base hcap b.attempts
  have hnext := nextDelay_asMillis hcap genRange
  have hle := envelope_le_cap b.base b.cap b.attempts.toNat
  constructor
  · rw [hdelay, hnext]
    exact Nat.le_min.mpr ⟨Nat.le_add_right _ _, Nat.div_le_self _ _⟩
  · rw [hdelay, hnext]
    exact Nat.min_le_right _ _
  · rw [hdelay]
    exact hle

/-- **The envelope of the delays.** For every base, every cap of at most `2^64 - 1` milliseconds, every run
of `next_delay` and `reset` and every draw: a delay keeps between half of `delay_for_attempt` and all of it,
for the number of delays since the last reset; that grows with the attempt up to the cap; and no operation
leaves its width. -/
theorem next_delay_envelope (base cap : Duration) (hcap : cap.asMillis ≤ 2 ^ 64 - 1) (calls : List Call)
    (genRange : GenRange) :
    (∃ (attempt : UInt32) (d : Duration), attempt.toNat = min (sinceReset calls) (2 ^ 32 - 1) ∧
        (backoffMachine base cap).answer calls (.nextDelay genRange) = some d ∧
        WithinEnvelope base cap attempt d ∧ FitsWidths base cap attempt genRange) ∧
      ∀ m n : UInt32, m ≤ n →
        (delayForAttempt base cap m).asMillis ≤ (delayForAttempt base cap n).asMillis := by
  refine ⟨?_, ?_⟩
  · obtain ⟨hbase, hcap', hattempt⟩ := after_calls base cap calls
    refine ⟨_, _, hattempt, rfl, ?_, fitsWidths hcap _ genRange⟩
    have hwithin := nextDelay_within (b := (backoffMachine base cap).after calls) (by rw [hcap']; exact hcap)
      genRange
    rw [hbase, hcap'] at hwithin
    exact hwithin
  · intro m n hmn
    rw [delayForAttempt_asMillis base hcap, delayForAttempt_asMillis base hcap]
    exact envelope_mono base cap (UInt32.le_iff_toNat_le.mp hmn)

end Runs

/-- A duration of so many milliseconds. -/
def ms (millis : UInt64) : Duration := .fromMillis millis

theorem ms_le (millis : UInt64) : (ms millis).asMillis ≤ 2 ^ 64 - 1 := by
  have hlt := millis.toNat_lt
  rw [ms, asMillis_fromMillis]
  omega

/-- The agent's own backoff, after three failures, with the largest draw. -/
theorem next_delay_agent :
    (ms 30000).asMillis ≤ 2 ^ 64 - 1 ∧
      ∃ (attempt : UInt32) (d : Duration), attempt.toNat = 3 ∧
        (backoffMachine (ms 200) (ms 30000)).answer (.replicate 3 (.nextDelay Fin.last)) (.nextDelay Fin.last) =
          some d ∧
        WithinEnvelope (ms 200) (ms 30000) attempt d ∧ FitsWidths (ms 200) (ms 30000) attempt Fin.last := by
  exact ⟨ms_le 30000, (next_delay_envelope (ms 200) (ms 30000) (ms_le 30000) (.replicate 3 (.nextDelay Fin.last)) Fin.last).1⟩

/-! ## §5 The formula of the doc comment.

`1 << attempt.min(10)` keeps the shift defined, but it also stops the growth: from the eleventh failure on
the delay is `base * 1024` even where the cap is higher. -/

section Formula

variable {base cap : Duration}

open Backoff

/-- "`min(cap, base * 2^attempt)`", in whole milliseconds and without overflow. -/
def FollowsFormula (base cap : Duration) (attempt : UInt32) : Prop :=
  base.asMillis * (1 <<< min attempt.toNat 10) < 2 ^ 128 ∧
    (delayForAttempt base cap attempt).asMillis = min cap.asMillis (base.asMillis * 2 ^ attempt.toNat)

/-- Enough failures lead to the cap, if the base is a millisecond at least. -/
def ReachesCap (base cap : Duration) : Prop :=
  base.asMillis ≠ 0 → ∃ attempt : UInt32, (delayForAttempt base cap attempt).asMillis = cap.asMillis

theorem followsFormula_iff (hcap : cap.asMillis ≤ 2 ^ 64 - 1) (attempt : UInt32) :
    FollowsFormula base cap attempt ↔
      attempt.toNat ≤ 10 ∨ base.asMillis = 0 ∨ cap.asMillis ≤ base.asMillis * 2 ^ 10 := by
  rw [FollowsFormula, delayForAttempt_asMillis base hcap, envelope]
  have hproduct : base.asMillis * (1 <<< min attempt.toNat 10) < 2 ^ 128 := by
    rw [Nat.one_shiftLeft]
    exact product_lt base attempt.toNat
  rw [and_iff_right hproduct]
  rcases Nat.lt_or_ge 10 attempt.toNat with hlarge | hsmall
  · rw [Nat.min_eq_right (by omega : 10 ≤ attempt.toNat)]
    have hpow : 2 ^ 11 ≤ 2 ^ attempt.toNat := Nat.pow_le_pow_right (by omega) hlarge
    have hmul := Nat.mul_le_mul_left base.asMillis hpow
    have hzero : base.asMillis = 0 → base.asMillis * 2 ^ attempt.toNat = 0 := by
      intro h
      rw [h, Nat.zero_mul]
    -- what is left is linear: the formula's product is at least twice the clamped one
    generalize base.asMillis * 2 ^ attempt.toNat = product at hmul hzero ⊢
    omega
  · rw [Nat.min_eq_left hsmall, Nat.min_comm]
    exact ⟨fun _ => .inl hsmall, fun _ => rfl⟩

theorem reachesCap_iff (hcap : cap.asMillis ≤ 2 ^ 64 - 1) :
    ReachesCap base cap ↔ base.asMillis = 0 ∨ cap.asMillis ≤ base.asMillis * 2 ^ 10 := by
  constructor
  · intro hreach
    rcases Nat.eq_zero_or_pos base.asMillis with hzero | hpos
    · exact .inl hzero
    · obtain ⟨attempt, h⟩ := hreach (by omega)
      have hmul := Nat.mul_le_mul_left base.asMillis (shift_le attempt.toNat)
      rw [delayForAttempt_asMillis base hcap, envelope] at h
      exact .inr (by omega)
  · rintro h hne
    refine ⟨10, ?_⟩
    rw [delayForAttempt_asMillis base hcap, envelope]
    have hten : min (10 : UInt32).toNat 10 = 10 := rfl
    rw [hten]
    omega

/-- **Where the formula holds.** A delay is the documented one if and only if the attempt is at most 10, the
base is no millisecond, or 1024 times the base is as much as the cap; and only then, with any attempt, is
the cap reached. -/
theorem delay_follows_formula_iff (base cap : Duration) (hcap : cap.asMillis ≤ 2 ^ 64 - 1) :
    (∀ attempt : UInt32, FollowsFormula base cap attempt ↔
        attempt.toNat ≤ 10 ∨ base.asMillis = 0 ∨ cap.asMillis ≤ base.asMillis * 2 ^ 10) ∧
      (ReachesCap base cap ↔ base.asMillis = 0 ∨ cap.asMillis ≤ base.asMillis * 2 ^ 10) :=
  ⟨followsFormula_iff hcap, reachesCap_iff hcap⟩

end Formula

/-- The agent's base and cap are within the clamp. -/
theorem delay_follows_agent :
    (ms 30000).asMillis ≤ 2 ^ 64 - 1 ∧ FollowsFormula (ms 200) (ms 30000) 20 ∧ ReachesCap (ms 200) (ms 30000) := by
  have hratio : (ms 30000).asMillis ≤ (ms 200).asMillis * 2 ^ 10 := by
    rw [ms, ms, asMillis_fromMillis, asMillis_fromMillis]
    decide
  obtain ⟨hformula, hreach⟩ := delay_follows_formula_iff (ms 200) (ms 30000) (ms_le 30000)
  exact ⟨ms_le 30000, (hformula 20).mpr (.inr (.inr hratio)), hreach.mpr (.inr hratio)⟩

/-- A base of one millisecond and a cap of five seconds: the twelfth delay is 1024 and not 2048 milliseconds,
and no delay is ever longer. -/
theorem slow_growth_stalls :
    (Backoff.delayForAttempt (ms 1) (ms 5000) 11).asMillis = 1024 ∧
      ¬ FollowsFormula (ms 1) (ms 5000) 11 ∧ ¬ ReachesCap (ms 1) (ms 5000) := by
  refine ⟨by decide +kernel, ?_, ?_⟩
  · rw [followsFormula_iff (ms_le 5000)]
    decide +kernel
  · rw [reachesCap_iff (ms_le 5000)]
    decide +kernel

end Edgewarden.Protocol
