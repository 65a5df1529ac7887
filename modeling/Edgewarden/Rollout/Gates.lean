/-
# Edgewarden.Rollout.Gates — what the gates of `evaluate` let through.

"Promotion requires every gate to pass on the current ring" (`control-plane/src/rollout.rs`). The gates
are written the other way round: each returns early if a rate is BEYOND its threshold. For numbers that is
the same. A rate that is not a number, 0 / 0 of a ring without traffic, is beyond no threshold and within
none.

* `gates_fail_closed_iff`: an unpaused rollout promotes on exactly the snapshots within all thresholds, and
  pauses on all others, if and only if the sample is small, a gate is breached all the same, or no rate is
  NaN.
* `promoted_on_nan` is a snapshot on which it promotes with all four rates unknown.
-/
import Edgewarden.Rollout.Manager

namespace Edgewarden.Rollout

open Edgewarden.Calls Edgewarden.Serde

/-! ## §1 Within and beyond. -/

/-- Every gate passes. -/
structure GateThresholds.Within (t : GateThresholds) (snap : HealthSnapshot) : Prop where
  crashRate : snap.crashRate.le t.maxCrashRate = true
  proxyErrorRate : snap.proxyErrorRate.le t.maxProxyErrorRate = true
  connectionSuccessRate : t.minConnectionSuccessRate.le snap.connectionSuccessRate = true
  cpuP95 : snap.cpuP95.le t.maxCpuP95 = true
  healthCheckFailures : snap.healthCheckFailures ≤ t.maxHealthCheckFailures

/-- Some gate fails, as a comparison of numbers. -/
def GateThresholds.Beyond (t : GateThresholds) (snap : HealthSnapshot) : Prop :=
  t.maxCrashRate.lt snap.crashRate = true ∨ t.maxProxyErrorRate.lt snap.proxyErrorRate = true ∨
    snap.connectionSuccessRate.lt t.minConnectionSuccessRate = true ∨
    t.maxCpuP95.lt snap.cpuP95 = true ∨ t.maxHealthCheckFailures < snap.healthCheckFailures

/-- No threshold is NaN. -/
structure GateThresholds.Numeric (t : GateThresholds) : Prop where
  maxCrashRate : t.maxCrashRate.isNaN = false
  maxProxyErrorRate : t.maxProxyErrorRate.isNaN = false
  minConnectionSuccessRate : t.minConnectionSuccessRate.isNaN = false
  maxCpuP95 : t.maxCpuP95.isNaN = false

/-- No rate is NaN. -/
structure HealthSnapshot.Numeric (snap : HealthSnapshot) : Prop where
  crashRate : snap.crashRate.isNaN = false
  proxyErrorRate : snap.proxyErrorRate.isNaN = false
  connectionSuccessRate : snap.connectionSuccessRate.isNaN = false
  cpuP95 : snap.cpuP95.isNaN = false

section Gates

variable {t : GateThresholds} {snap : HealthSnapshot}

/-- The gates of the source stop a snapshot that is beyond one of them. -/
theorem breach_eq_none_iff : t.breach snap = none ↔ ¬ t.Beyond snap := by
  unfold GateThresholds.breach GateThresholds.Beyond
  simp only [not_or]
  constructor
  · intro h
    split at h
    · cases h
    split at h
    · cases h
    split at h
    · cases h
    split at h
    · cases h
    split at h
    · cases h
    exact ⟨‹_›, ‹_›, ‹_›, ‹_›, ‹_›⟩
  · rintro ⟨h₁, h₂, h₃, h₄, h₅⟩
    rw [if_neg h₁, if_neg h₂, if_neg h₃, if_neg h₄, if_neg h₅]

/-- A snapshot within all gates is beyond none of them. -/
theorem not_beyond_of_within (h : t.Within snap) : ¬ t.Beyond snap := by
  have hfloat : ∀ {x y : F64}, x.le y = true → ¬ y.lt x = true := by
    intro x y hle hlt
    rw [F64.le_eq_false_of_lt hlt] at hle
    cases hle
  rintro (hb | hb | hb | hb | hb)
  · exact hfloat h.crashRate hb
  · exact hfloat h.proxyErrorRate hb
  · exact hfloat h.connectionSuccessRate hb
  · exact hfloat h.cpuP95 hb
  · have := h.healthCheckFailures
    rw [UInt64.le_iff_toNat_le] at this
    rw [UInt64.lt_iff_toNat_lt] at hb
    omega

/-- What is within has only numbers in it. -/
theorem numeric_of_within (h : t.Within snap) : snap.Numeric := by
  have hleft : ∀ {x y : F64}, x.le y = true → x.isNaN = false := by
    intro x y hle
    by_contra hnan
    rw [F64.le_eq_false_of_isNaN_left (by simpa using hnan)] at hle
    cases hle
  have hright : ∀ {x y : F64}, x.le y = true → y.isNaN = false := by
    intro x y hle
    by_contra hnan
    rw [F64.le_eq_false_of_isNaN_right (by simpa using hnan)] at hle
    cases hle
  exact ⟨hleft h.crashRate, hleft h.proxyErrorRate, hright h.connectionSuccessRate, hleft h.cpuP95⟩

/-- **Numbers are within or beyond.** -/
theorem within_iff (ht : t.Numeric) : t.Within snap ↔ snap.Numeric ∧ ¬ t.Beyond snap := by
  constructor
  · intro h
    exact ⟨numeric_of_within h, not_beyond_of_within h⟩
  · rintro ⟨hs, hb⟩
    simp only [GateThresholds.Beyond, not_or, Bool.not_eq_true] at hb
    obtain ⟨hcrash, hproxy, hsuccess, hcpu, hfailures⟩ := hb
    constructor
    · exact (F64.lt_eq_false_iff_le hs.crashRate ht.maxCrashRate).mp hcrash
    · exact (F64.lt_eq_false_iff_le hs.proxyErrorRate ht.maxProxyErrorRate).mp hproxy
    · exact (F64.lt_eq_false_iff_le ht.minConnectionSuccessRate hs.connectionSuccessRate).mp hsuccess
    · exact (F64.lt_eq_false_iff_le hs.cpuP95 ht.maxCpuP95).mp hcpu
    · exact UInt64.not_lt.mp hfailures

end Gates

/-! ## §2 The decision. -/

/-- Promotion on exactly the snapshots within all gates, a pause on all others of sufficient size. -/
structure FailsClosed (m : RolloutManager) (snap : HealthSnapshot) : Prop where
  promotes : (∃ source target, (m.evaluate snap).1 = .promote source target) ↔
    m.current + 1 < m.rings.length ∧ m.thresholds.minSampleSize ≤ snap.sampleSize ∧ m.thresholds.Within snap
  pauses : m.thresholds.minSampleSize ≤ snap.sampleSize → ¬ m.thresholds.Within snap →
    (∃ ring reason, (m.evaluate snap).1 = .paused ring reason) ∧ (m.evaluate snap).2.paused = true

section Decision

variable {m : RolloutManager} {snap : HealthSnapshot}

/-- The pause of a breached gate. -/
theorem evaluate_beyond (hpaused : m.paused = false) (hsize : m.thresholds.minSampleSize ≤ snap.sampleSize)
    (hb : m.thresholds.Beyond snap) :
    (∃ ring reason, (m.evaluate snap).1 = .paused ring reason) ∧ (m.evaluate snap).2.paused = true := by
  have hbreach : m.thresholds.breach snap ≠ none := fun h => breach_eq_none_iff.mp h hb
  obtain ⟨reason, hreason⟩ := Option.ne_none_iff_exists'.mp hbreach
  have heval : m.evaluate snap = (.paused m.currentRing.name reason, m.pause reason) := by
    simp only [RolloutManager.evaluate, hpaused, UInt64.not_lt.mpr hsize, hreason, Bool.false_eq_true, if_false]
  rw [heval]
  exact ⟨⟨_, _, rfl⟩, rfl⟩

/-- Without one there is no pause. -/
theorem evaluate_not_beyond (hpaused : m.paused = false) (hb : ¬ m.thresholds.Beyond snap) :
    (m.evaluate snap).2.paused = false := by
  have hbreach := breach_eq_none_iff.mpr hb
  have heval := evaluate_evaluation m snap
  generalize m.evaluate snap = result at heval ⊢
  cases heval with
  | breached _ hreason => cases hbreach.symm.trans hreason
  | _ => exact hpaused

theorem promotes_iff (hpaused : m.paused = false) :
    (∃ source target, (m.evaluate snap).1 = .promote source target) ↔
      m.current + 1 < m.rings.length ∧ m.thresholds.minSampleSize ≤ snap.sampleSize ∧
        ¬ m.thresholds.Beyond snap := by
  rw [evaluate_promote_iff, GateThresholds.Passes, breach_eq_none_iff, UInt64.not_lt]
  constructor
  · rintro ⟨-, ⟨hsize, hb⟩, hnext⟩
    exact ⟨hnext, hsize, hb⟩
  · rintro ⟨hnext, hsize, hb⟩
    exact ⟨hpaused, ⟨hsize, hb⟩, hnext⟩

/-- **Where the gates fail closed.** For every unpaused rollout whose thresholds are numbers and every
snapshot: it promotes on exactly the large enough samples within all gates, if there is a next ring, and
pauses on the large enough ones that are not, if and only if the sample is too small, some number in it is
beyond its threshold, or none of the four rates is NaN. -/
theorem gates_fail_closed_iff (m : RolloutManager) (snap : HealthSnapshot) (hpaused : m.paused = false)
    (ht : m.thresholds.Numeric) :
    FailsClosed m snap ↔
      snap.sampleSize < m.thresholds.minSampleSize ∨ m.thresholds.Beyond snap ∨ snap.Numeric := by
  constructor
  · intro h
    by_contra hcond
    simp only [not_or, UInt64.not_lt] at hcond
    obtain ⟨hsize, hb, hnumeric⟩ := hcond
    -- a large sample beyond nothing and with a NaN is not within, and is not paused either
    have hwithin : ¬ m.thresholds.Within snap := fun hw => hnumeric (numeric_of_within hw)
    have hlatched := (h.pauses hsize hwithin).2
    rw [evaluate_not_beyond hpaused hb] at hlatched
    cases hlatched
  · intro hcond
    constructor
    · rw [promotes_iff hpaused, within_iff ht]
      constructor
      · rintro ⟨hnext, hsize, hb⟩
        refine ⟨hnext, hsize, ?_, hb⟩
        rcases hcond with hsmall | hbeyond | hnumeric
        · exact absurd hsmall (UInt64.not_lt.mpr hsize)
        · exact absurd hbeyond hb
        · exact hnumeric
      · rintro ⟨hnext, hsize, -, hb⟩
        exact ⟨hnext, hsize, hb⟩
    · intro hsize hwithin
      rcases hcond with hsmall | hbeyond | hnumeric
      · exact absurd hsmall (UInt64.not_lt.mpr hsize)
      · exact evaluate_beyond hpaused hsize hbeyond
      · refine evaluate_beyond hpaused hsize ?_
        by_contra hb
        exact hwithin ((within_iff ht).mpr ⟨hnumeric, hb⟩)

end Decision

theorem default_numeric : GateThresholds.default.Numeric := by
  constructor <;> decide +kernel

/-- A new rollout of the default thresholds, on two rings. -/
def newRollout : RolloutManager := .new twoRings twoRings_ne_nil .default

theorem gates_fail_closed_healthy : FailsClosed newRollout healthySnapshot := by
  refine (gates_fail_closed_iff newRollout healthySnapshot rfl default_numeric).mpr (.inr (.inr ?_))
  constructor <;> decide +kernel

/-- A ring of a hundred devices without traffic: every rate is 0 / 0. -/
def idleSnapshot : HealthSnapshot where
  crashRate := ⟨0x7FF8000000000000⟩
  proxyErrorRate := ⟨0x7FF8000000000000⟩
  connectionSuccessRate := ⟨0x7FF8000000000000⟩
  cpuP95 := ⟨0x7FF8000000000000⟩
  memBytesP95 := 100
  memLimitBytes := 1000
  healthCheckFailures := 0
  sampleSize := 100

/-- It is within no gate and is promoted. -/
theorem promoted_on_nan :
    newRollout.paused = false ∧ newRollout.thresholds.Numeric ∧
      (newRollout.evaluate idleSnapshot).1 = .promote "internal" "stable-100pct" ∧
      ¬ newRollout.thresholds.Within idleSnapshot ∧ ¬ FailsClosed newRollout idleSnapshot := by
  have hwithin : ¬ newRollout.thresholds.Within idleSnapshot := by
    intro h
    have hnan := (numeric_of_within h).crashRate
    revert hnan
    decide +kernel
  refine ⟨rfl, default_numeric, by decide +kernel, hwithin, ?_⟩
  intro h
  have hpromotes : ∃ source target, (newRollout.evaluate idleSnapshot).1 = .promote source target :=
    ⟨"internal", "stable-100pct", by decide +kernel⟩
  exact hwithin (h.promotes.mp hpromotes).2.2

end Edgewarden.Rollout
