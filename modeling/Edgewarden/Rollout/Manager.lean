/-
# Edgewarden.Rollout.Manager — `control-plane/src/rollout.rs`: rings, gates, the pause latch, promotion.

`evaluate` looks at the health of the current ring and latches a pause when a gate is breached; `promote`
moves on. They are two separate operations, and `promote` looks at nothing but the latch.

* `paused_rollout_stays_put`: the latch holds. Whatever is called between a pause and the next `resume`,
  every evaluation answers `Paused` on the same ring and nothing moves.
* `promotions_judged_iff`: a run moves on only from rings whose latest evaluation said `Promote` if and
  only if its CALLER sees to that. `promoted_without_evaluation` is a run of one call in which it does not.

`current_ring` indexes the list of rings, which panics if it is empty; a manager here has at least one.
-/
import Edgewarden.Lib.Float
import Edgewarden.Lib.Machine

namespace Edgewarden.Rollout

open Edgewarden.Calls Edgewarden.Serde

/-! ## §1 Data. -/

structure Ring where
  name : String
  fraction : F64
  deriving DecidableEq, Repr

structure HealthSnapshot where
  crashRate : F64
  proxyErrorRate : F64
  connectionSuccessRate : F64
  cpuP95 : F64
  memBytesP95 : UInt64
  memLimitBytes : UInt64
  healthCheckFailures : UInt64
  sampleSize : UInt64
  deriving DecidableEq, Repr

structure GateThresholds where
  maxCrashRate : F64
  maxProxyErrorRate : F64
  minConnectionSuccessRate : F64
  maxCpuP95 : F64
  maxHealthCheckFailures : UInt64
  minSampleSize : UInt64
  deriving DecidableEq, Repr

/-- `GateThresholds::default()`: 0.01, 0.02, 0.99, 0.85, 0 and 5. -/
def GateThresholds.default : GateThresholds where
  maxCrashRate := ⟨0x3F847AE147AE147B⟩
  maxProxyErrorRate := ⟨0x3F947AE147AE147B⟩
  minConnectionSuccessRate := ⟨0x3FEFAE147AE147AE⟩
  maxCpuP95 := ⟨0x3FEB333333333333⟩
  maxHealthCheckFailures := 0
  minSampleSize := 5

inductive RolloutDecision
  | promote (source target : String)
  | hold (ring : String)
  | paused (ring reason : String)
  deriving DecidableEq, Repr

structure RolloutManager where
  rings : List Ring
  nonempty : rings ≠ []
  current : Nat
  paused : Bool
  pauseReason : Option String
  thresholds : GateThresholds

/-! ## §2 Operations. -/

/-- The reason of the first gate that `snap` breaches, in the order of the source. -/
def GateThresholds.breach (t : GateThresholds) (snap : HealthSnapshot) : Option String :=
  if t.maxCrashRate.lt snap.crashRate then
    some s!"crash_rate {snap.crashRate.toFixed 4} > {t.maxCrashRate.toFixed 4}"
  else if t.maxProxyErrorRate.lt snap.proxyErrorRate then
    some s!"proxy_error_rate {snap.proxyErrorRate.toFixed 4} > {t.maxProxyErrorRate.toFixed 4}"
  else if snap.connectionSuccessRate.lt t.minConnectionSuccessRate then
    some s!"connection_success_rate {snap.connectionSuccessRate.toFixed 4} < {t.minConnectionSuccessRate.toFixed 4}"
  else if t.maxCpuP95.lt snap.cpuP95 then
    some s!"cpu_p95 {snap.cpuP95.toFixed 3} > {t.maxCpuP95.toFixed 3}"
  else if t.maxHealthCheckFailures < snap.healthCheckFailures then
    some s!"health_check_failures {snap.healthCheckFailures.toNat} > {t.maxHealthCheckFailures.toNat}"
  else none

namespace RolloutManager

def new (rings : List Ring) (h : rings ≠ []) (thresholds : GateThresholds) : RolloutManager where
  rings := rings
  nonempty := h
  current := 0
  paused := false
  pauseReason := none
  thresholds := thresholds

def currentRing (m : RolloutManager) : Ring :=
  m.rings.get ⟨min m.current (m.rings.length - 1), by
    have := List.length_pos_iff.mpr m.nonempty
    omega⟩

def pause (m : RolloutManager) (reason : String) : RolloutManager :=
  { m with paused := true, pauseReason := some reason }

def resume (m : RolloutManager) : RolloutManager := { m with paused := false, pauseReason := none }

def evaluate (m : RolloutManager) (snap : HealthSnapshot) : RolloutDecision × RolloutManager :=
  -- a pause is answered before any gate is looked at
  if m.paused then (.paused m.currentRing.name (m.pauseReason.getD "manually paused"), m)
  else if snap.sampleSize < m.thresholds.minSampleSize then (.hold m.currentRing.name, m)
  else
    match m.thresholds.breach snap with
    | some reason => (.paused m.currentRing.name reason, m.pause reason)
    | none =>
        if h : m.current + 1 < m.rings.length then
          (.promote m.currentRing.name (m.rings.get ⟨m.current + 1, h⟩).name, m)
        else (.hold m.currentRing.name, m)

def promote (m : RolloutManager) : RolloutManager :=
  -- the gates are `evaluate`'s; here only the latch and the end of the list count
  if m.paused = false ∧ m.current + 1 < m.rings.length then { m with current := m.current + 1 } else m

end RolloutManager

inductive Call
  | evaluate (snap : HealthSnapshot)
  | promote
  | pause (reason : String)
  | resume
  deriving DecidableEq, Repr

/-- A call: what `evaluate` decided, and the manager after it. -/
def RolloutManager.step (m : RolloutManager) : Call → Option RolloutDecision × RolloutManager
  | .evaluate snap => (some (m.evaluate snap).1, (m.evaluate snap).2)
  | .promote => (none, m.promote)
  | .pause reason => (none, m.pause reason)
  | .resume => (none, m.resume)

/-- A rollout over `rings`. -/
def rollout (rings : List Ring) (h : rings ≠ []) (thresholds : GateThresholds) :
    Machine RolloutManager Call (Option RolloutDecision) where
  init := .new rings h thresholds
  step := RolloutManager.step

/-! ## §3 What a call can do. -/

section Calls

variable {m : RolloutManager} {snap : HealthSnapshot}

/-- The snapshot is large enough and breaches no gate. -/
def GateThresholds.Passes (t : GateThresholds) (snap : HealthSnapshot) : Prop :=
  ¬ snap.sampleSize < t.minSampleSize ∧ t.breach snap = none

/-- Everything an evaluation of `snap` can do. -/
inductive Evaluation (m : RolloutManager) (snap : HealthSnapshot) : RolloutDecision × RolloutManager → Prop
  | latched : m.paused = true →
      Evaluation m snap (.paused m.currentRing.name (m.pauseReason.getD "manually paused"), m)
  | small : m.paused = false → snap.sampleSize < m.thresholds.minSampleSize →
      Evaluation m snap (.hold m.currentRing.name, m)
  | breached {reason : String} : m.paused = false → m.thresholds.breach snap = some reason →
      Evaluation m snap (.paused m.currentRing.name reason, m.pause reason)
  | passed (target : String) : m.paused = false → m.thresholds.Passes snap →
      m.current + 1 < m.rings.length → Evaluation m snap (.promote m.currentRing.name target, m)
  | last : m.paused = false → ¬ m.current + 1 < m.rings.length →
      Evaluation m snap (.hold m.currentRing.name, m)

theorem evaluate_evaluation (m : RolloutManager) (snap : HealthSnapshot) :
    Evaluation m snap (m.evaluate snap) := by
  unfold RolloutManager.evaluate
  cases hpaused : m.paused with
  | true => exact .latched hpaused
  | false =>
      rw [if_neg Bool.false_ne_true]
      by_cases hsample : snap.sampleSize < m.thresholds.minSampleSize
      · rw [if_pos hsample]
        exact .small hpaused hsample
      · rw [if_neg hsample]
        cases hbreach : m.thresholds.breach snap with
        | some reason => exact .breached hpaused hbreach
        | none =>
            by_cases hnext : m.current + 1 < m.rings.length
            · simp only [hnext, dite_true]
              exact .passed _ hpaused ⟨hsample, hbreach⟩ hnext
            · simp only [hnext, dite_false]
              exact .last hpaused hnext

/-- **When an evaluation says `Promote`.** -/
theorem evaluate_promote_iff :
    (∃ source target, (m.evaluate snap).1 = .promote source target) ↔
      m.paused = false ∧ m.thresholds.Passes snap ∧ m.current + 1 < m.rings.length := by
  have heval := evaluate_evaluation m snap
  generalize m.evaluate snap = result at heval
  cases heval with
  | latched hpaused => simp [hpaused]
  | small _ hsample => simp [GateThresholds.Passes, hsample]
  | breached _ hbreach => simp [GateThresholds.Passes, hbreach]
  | passed target hpaused hpasses hnext => simp [hpaused, hpasses, hnext]
  | last _ hnext => simp [hnext]

theorem evaluate_paused (h : m.paused = true) :
    m.evaluate snap = (.paused m.currentRing.name (m.pauseReason.getD "manually paused"), m) := by
  simp [RolloutManager.evaluate, h]

/-- An evaluation leaves the manager, or pauses it. -/
theorem evaluate_manager (m : RolloutManager) (snap : HealthSnapshot) :
    (m.evaluate snap).2 = m ∨ ∃ reason, (m.evaluate snap).2 = m.pause reason := by
  have heval := evaluate_evaluation m snap
  generalize m.evaluate snap = result at heval
  cases heval with
  | breached _ _ => exact .inr ⟨_, rfl⟩
  | _ => exact .inl rfl

/-- The part of a manager that no call changes. -/
theorem step_fixed (m : RolloutManager) (c : Call) :
    (m.step c).2.rings = m.rings ∧ (m.step c).2.thresholds = m.thresholds := by
  cases c with
  | evaluate snap =>
      rcases evaluate_manager m snap with heq | ⟨reason, heq⟩
      · simp [RolloutManager.step, heq]
      · simp [RolloutManager.step, heq, RolloutManager.pause]
  | promote =>
      simp only [RolloutManager.step, RolloutManager.promote]
      split <;> simp
  | pause reason => exact ⟨rfl, rfl⟩
  | resume => exact ⟨rfl, rfl⟩

/-- Only `promote` moves on, by one ring, and only if nothing is paused and there is a next ring. -/
theorem step_current (m : RolloutManager) (c : Call) :
    (m.step c).2.current = m.current ∨
      c = .promote ∧ m.paused = false ∧ m.current + 1 < m.rings.length ∧
        (m.step c).2.current = m.current + 1 := by
  cases c with
  | evaluate snap =>
      rcases evaluate_manager m snap with heq | ⟨reason, heq⟩
      · simp [RolloutManager.step, heq]
      · simp [RolloutManager.step, heq, RolloutManager.pause]
  | promote =>
      simp only [RolloutManager.step, RolloutManager.promote]
      by_cases h : m.paused = false ∧ m.current + 1 < m.rings.length <;> simp [h]
  | pause reason => exact .inl rfl
  | resume => exact .inl rfl

/-- A `promote` that is not refused moves on. -/
theorem step_promote (h : m.paused = false ∧ m.current + 1 < m.rings.length) :
    (m.step .promote).2.current = m.current + 1 := by
  simp [RolloutManager.step, RolloutManager.promote, h]

/-- A manager that stands on one of its rings, and is paused exactly with a reason. -/
structure Sound (rings : List Ring) (thresholds : GateThresholds) (m : RolloutManager) : Prop where
  rings : m.rings = rings
  thresholds : m.thresholds = thresholds
  current : m.current < m.rings.length
  reason : m.paused = true ↔ m.pauseReason.isSome = true

theorem Sound.step {rings : List Ring} {thresholds : GateThresholds} (h : Sound rings thresholds m)
    (c : Call) : Sound rings thresholds (m.step c).2 := by
  obtain ⟨hrings, hthresholds⟩ := step_fixed m c
  refine ⟨hrings.trans h.rings, hthresholds.trans h.thresholds, ?_, ?_⟩
  · rw [hrings]
    have := h.current
    rcases step_current m c with heq | ⟨_, _, hnext, heq⟩ <;> omega
  · cases c with
    | evaluate snap =>
        rcases evaluate_manager m snap with heq | ⟨reason, heq⟩
        · simpa [RolloutManager.step, heq] using h.reason
        · simp [RolloutManager.step, heq, RolloutManager.pause]
    | promote =>
        simp only [RolloutManager.step, RolloutManager.promote]
        split
        · exact h.reason
        · exact h.reason
    | pause reason => simp [RolloutManager.step, RolloutManager.pause]
    | resume => simp [RolloutManager.step, RolloutManager.resume]

end Calls

/-! ## §4 The latch. -/

section Latch

variable {rings : List Ring} {hne : rings ≠ []} {thresholds : GateThresholds} {m : RolloutManager}

theorem sound_after (rings : List Ring) (hne : rings ≠ []) (thresholds : GateThresholds)
    (calls : List Call) : Sound rings thresholds ((rollout rings hne thresholds).after calls) := by
  refine Machine.invariant _ ⟨rfl, rfl, List.length_pos_iff.mpr hne, ?_⟩ (fun m c h => h.step c) calls
  simp [rollout, RolloutManager.new]

theorem currentRing_congr {m m' : RolloutManager} (hrings : m'.rings = m.rings)
    (hcurrent : m'.current = m.current) : m'.currentRing = m.currentRing := by
  simp only [RolloutManager.currentRing, List.get_eq_getElem, hrings, hcurrent]

/-- A paused manager stays paused on its ring, whatever is called but `resume`. -/
theorem step_frozen {c : Call} (hpaused : m.paused = true) (hc : c ≠ .resume) :
    (m.step c).2.paused = true ∧ (m.step c).2.current = m.current := by
  cases c with
  | evaluate snap => simp [RolloutManager.step, evaluate_paused hpaused, hpaused]
  | promote => simp [RolloutManager.step, RolloutManager.promote, hpaused]
  | pause reason => simp [RolloutManager.step, RolloutManager.pause]
  | resume => exact absurd rfl hc

/-- ... and keeps its reason, if `pause` is not called either. -/
theorem step_pauseReason {c : Call} (hpaused : m.paused = true) (hc : c ≠ .resume)
    (hp : ∀ reason, c ≠ .pause reason) : (m.step c).2.pauseReason = m.pauseReason := by
  cases c with
  | evaluate snap => simp [RolloutManager.step, evaluate_paused hpaused]
  | promote => simp [RolloutManager.step, RolloutManager.promote, hpaused]
  | pause reason => exact absurd rfl (hp reason)
  | resume => exact absurd rfl hc

theorem after_frozen {calls more : List Call} (hmore : ∀ c ∈ more, c ≠ .resume)
    (h : ((rollout rings hne thresholds).after calls).paused = true) :
    ((rollout rings hne thresholds).after (calls ++ more)).paused = true ∧
      ((rollout rings hne thresholds).after (calls ++ more)).current =
        ((rollout rings hne thresholds).after calls).current :=
  (rollout rings hne thresholds).keeps (I := fun m => m.paused = true ∧
      m.current = ((rollout rings hne thresholds).after calls).current)
    (fun _ _ hc hm => ⟨(step_frozen hm.1 hc).1, (step_frozen hm.1 hc).2.trans hm.2⟩) hmore ⟨h, rfl⟩

theorem after_pauseReason {calls more : List Call} (hmore : ∀ c ∈ more, c ≠ .resume)
    (hpause : ∀ c ∈ more, ∀ text, c ≠ .pause text)
    (h : ((rollout rings hne thresholds).after calls).paused = true) :
    ((rollout rings hne thresholds).after (calls ++ more)).pauseReason =
      ((rollout rings hne thresholds).after calls).pauseReason := by
  have hkept := (rollout rings hne thresholds).keeps (I := fun m => m.paused = true ∧
      m.pauseReason = ((rollout rings hne thresholds).after calls).pauseReason)
    (K := fun c => c ≠ .resume ∧ ∀ text, c ≠ .pause text)
    (fun _ _ hc hm => ⟨(step_frozen hm.1 hc.1).1, (step_pauseReason hm.1 hc.1 hc.2).trans hm.2⟩)
    (fun c hc => ⟨hmore c hc, hpause c hc⟩) ⟨h, rfl⟩
  exact hkept.2

/-- The ring and the reason of a call that pauses the rollout: an evaluation that answers `Paused`, or a
call of `pause`. -/
def pausedBy (m : RolloutManager) : Call → Option (String × String)
  | .pause reason => some (m.currentRing.name, reason)
  | .evaluate snap =>
      match (m.evaluate snap).1 with
      | .paused ring reason => some (ring, reason)
      | _ => none
  | _ => none

/-- **What a pausing call leaves**: a paused manager on the same ring. -/
theorem pausedBy_step {c : Call} {ring reason : String} (hs : Sound rings thresholds m)
    (h : pausedBy m c = some (ring, reason)) :
    (m.step c).2.paused = true ∧ (m.step c).2.current = m.current ∧
      (m.step c).2.pauseReason = some reason ∧ ring = m.currentRing.name := by
  cases c with
  | promote => cases h
  | resume => cases h
  | pause reason' =>
      cases h
      simp [RolloutManager.step, RolloutManager.pause]
  | evaluate snap =>
      have heval := evaluate_evaluation m snap
      simp only [pausedBy] at h
      simp only [RolloutManager.step]
      generalize m.evaluate snap = result at heval h ⊢
      cases heval with
      | latched hpaused =>
          obtain ⟨reason', hreason⟩ := Option.isSome_iff_exists.mp (hs.reason.mp hpaused)
          cases h
          simp [hpaused, hreason]
      | breached _ _ =>
          cases h
          simp [RolloutManager.pause]
      | small _ _ => cases h
      | passed _ _ _ _ => cases h
      | last _ _ => cases h

/-- **A paused rollout stays put.** In every run of calls over a non-empty list of rings:

* the current ring is one of the list, it changes only by a `promote` and then by one, and the rollout is
  paused exactly if there is a reason;
* from a call that pauses it (an evaluation that answers `Paused`, or `pause`) up to the next `resume`,
  nothing moves and every evaluation answers `Paused` for the same ring, with the same reason if `pause`
  was not called again. -/
theorem paused_rollout_stays_put (rings : List Ring) (hne : rings ≠ []) (thresholds : GateThresholds)
    (calls : List Call) :
    let r := rollout rings hne thresholds
    ((r.after calls).current < rings.length ∧
        ((r.after calls).paused = true ↔ (r.after calls).pauseReason.isSome = true)) ∧
      (∀ c, (r.after (calls ++ [c])).current = (r.after calls).current ∨
        c = .promote ∧ (r.after (calls ++ [c])).current = (r.after calls).current + 1) ∧
      ∀ c ring reason more, pausedBy (r.after calls) c = some (ring, reason) → .resume ∉ more →
        (r.after (calls ++ [c] ++ more)).current = (r.after calls).current ∧
          ∀ snap, ∃ reason', r.answer (calls ++ [c] ++ more) (.evaluate snap) = some (.paused ring reason') ∧
            ((∀ text, .pause text ∉ more) → reason' = reason) := by
  intro r
  have hsound : ∀ calls, Sound rings thresholds (r.after calls) := sound_after rings hne thresholds
  refine ⟨⟨?_, (hsound calls).reason⟩, ?_, ?_⟩
  · have hcurrent := (hsound calls).current
    rwa [(hsound calls).rings] at hcurrent
  · intro c
    rw [r.after_snoc]
    exact (step_current _ c).imp_right fun ⟨hc, _, _, hnext⟩ => ⟨hc, hnext⟩
  · intro c ring reason more hby hresume
    obtain ⟨hpaused, hcurrent, hreason, rfl⟩ := pausedBy_step (hsound calls) hby
    rw [show (r.after calls).step c = r.step (r.after calls) c from rfl, ← r.after_snoc] at hpaused hcurrent hreason
    have hnever : ∀ c' ∈ more, c' ≠ .resume := fun c' hc' heq => hresume (heq ▸ hc')
    obtain ⟨hpaused', hcurrent'⟩ := after_frozen hnever hpaused
    refine ⟨hcurrent'.trans hcurrent, fun snap =>
      ⟨(r.after (calls ++ [c] ++ more)).pauseReason.getD "manually paused", ?_, ?_⟩⟩
    · show some ((r.after (calls ++ [c] ++ more)).evaluate snap).1 = _
      have hring : (r.after (calls ++ [c] ++ more)).currentRing = (r.after calls).currentRing :=
        currentRing_congr ((hsound _).rings.trans (hsound calls).rings.symm) (hcurrent'.trans hcurrent)
      rw [evaluate_paused hpaused', hring]
    · intro hpause
      have hkept := after_pauseReason hnever (fun c' hc' text heq => hpause text (heq ▸ hc')) hpaused
      rw [hkept, hreason, Option.getD_some]

end Latch

/-- Two rings. -/
def twoRings : List Ring := [⟨"internal", F64.zero⟩, ⟨"stable-100pct", ⟨0x3FF0000000000000⟩⟩]

theorem twoRings_ne_nil : twoRings ≠ [] := List.cons_ne_nil _ _

/-- A hundred samples without an error. -/
def healthySnapshot : HealthSnapshot where
  crashRate := F64.zero
  proxyErrorRate := F64.zero
  connectionSuccessRate := ⟨0x3FF0000000000000⟩
  cpuP95 := F64.zero
  memBytesP95 := 100
  memLimitBytes := 1000
  healthCheckFailures := 0
  sampleSize := 100

/-- One of them was followed by a failed health check. -/
def failingSnapshot : HealthSnapshot := { healthySnapshot with healthCheckFailures := 1 }

/-- A new rollout is evaluated, breaches a gate, and could be promoted. -/
theorem paused_rollout_stays_put_breached :
    let r := rollout twoRings twoRings_ne_nil .default
    let calls := [.evaluate healthySnapshot] ++ [.evaluate failingSnapshot] ++ [.promote, .evaluate healthySnapshot]
    (r.after calls).current = 0 ∧
      ∀ snap, r.answer calls (.evaluate snap) = some (.paused "internal" "health_check_failures 1 > 0") := by
  intro r calls
  have hpauses : pausedBy (r.after [.evaluate healthySnapshot]) (.evaluate failingSnapshot) =
      some ("internal", "health_check_failures 1 > 0") := by decide +kernel
  obtain ⟨hstays, hanswers⟩ := (paused_rollout_stays_put twoRings twoRings_ne_nil .default
    [.evaluate healthySnapshot]).2.2 _ _ _ [.promote, .evaluate healthySnapshot] hpauses (by decide)
  refine ⟨hstays.trans (by decide +kernel), ?_⟩
  intro snap
  obtain ⟨reason, hanswer, hreason⟩ := hanswers snap
  rw [hreason (by simp)] at hanswer
  exact hanswer

/-! ## §5 Promotions. -/

section Promotions

variable (r : Machine RolloutManager Call (Option RolloutDecision)) (i : Nat)

/-- An evaluation of ring `i`. -/
def Judged (before : List Call) (c : Call) : Prop :=
  ∃ snap, c = .evaluate snap ∧ (r.after before).current = i

/-- ... that answers `Promote`. -/
def Promising (before : List Call) (c : Call) : Prop :=
  ∃ snap source target, c = .evaluate snap ∧ (r.after before).current = i ∧
    r.answer before c = some (.promote source target)

/-- ... that is made while nothing is paused, on a snapshot that passes the gates. -/
def Passing (before : List Call) (c : Call) : Prop :=
  ∃ snap, c = .evaluate snap ∧ (r.after before).current = i ∧ (r.after before).paused = false ∧
    (r.after before).thresholds.Passes snap

/-- The latest evaluation of ring `i` answered `Promote`. -/
def JudgedGood (calls : List Call) : Prop := Outstanding (Promising r i) (Judged r i) calls

/-- The latest evaluation of ring `i` was made while nothing was paused, on a snapshot that passes. -/
def CallerChecked (calls : List Call) : Prop := Outstanding (Passing r i) (Judged r i) calls

end Promotions

section

variable {rings : List Ring} {hne : rings ≠ []} {thresholds : GateThresholds}

/-- On a ring that has a next one the two come to the same. -/
theorem judgedGood_iff {calls : List Call} {i : Nat} (hnext : i + 1 < rings.length) :
    JudgedGood (rollout rings hne thresholds) i calls ↔
      CallerChecked (rollout rings hne thresholds) i calls := by
  refine Outstanding.congr fun before c => ?_
  have hrings := (sound_after rings hne thresholds before).rings
  constructor
  · rintro ⟨snap, source, target, rfl, hi, hanswer⟩
    obtain ⟨hpaused, hpasses, _⟩ :=
      evaluate_promote_iff.mp ⟨source, target, Option.some.inj hanswer⟩
    exact ⟨snap, rfl, hi, hpaused, hpasses⟩
  · rintro ⟨snap, rfl, hi, hpaused, hpasses⟩
    have hlen : ((rollout rings hne thresholds).after before).current + 1 <
        ((rollout rings hne thresholds).after before).rings.length := by
      rw [hrings, hi]
      exact hnext
    obtain ⟨source, target, hanswer⟩ := evaluate_promote_iff.mpr ⟨hpaused, hpasses, hlen⟩
    exact ⟨snap, source, target, rfl, hi, congrArg some hanswer⟩

/-- **Promotions.** For every run of calls: each ring that the rollout leaves was left after an evaluation
of that ring, the latest of which answered `Promote`, if and only if every `promote` that finds the
rollout unpaused with a ring to go to comes after an evaluation of the current ring, the latest of which
was made unpaused on a large enough sample that breaches no gate. -/
theorem promotions_judged_iff (rings : List Ring) (hne : rings ≠ []) (thresholds : GateThresholds)
    (calls : List Call) :
    let r := rollout rings hne thresholds
    (∀ before c, before ++ [c] <+: calls →
        (r.after (before ++ [c])).current ≠ (r.after before).current →
        JudgedGood r (r.after before).current before) ↔
      ∀ before, before ++ [.promote] <+: calls → (r.after before).paused = false →
        (r.after before).current + 1 < rings.length → CallerChecked r (r.after before).current before := by
  intro r
  have hsound : ∀ calls, Sound rings thresholds (r.after calls) := sound_after rings hne thresholds
  constructor
  · intro hjudged before hcalls hpaused hnext
    have hmoves : (r.after (before ++ [.promote])).current = (r.after before).current + 1 := by
      rw [r.after_snoc]
      refine step_promote ⟨hpaused, ?_⟩
      rw [(hsound before).rings]
      exact hnext
    refine (judgedGood_iff hnext).mp (hjudged before .promote hcalls ?_)
    omega
  · intro hchecked before c hcalls hmoves
    rw [r.after_snoc] at hmoves
    rcases step_current (r.after before) c with hsame | ⟨rfl, hpaused, hnext, _⟩
    · exact absurd hsame hmoves
    · rw [(hsound before).rings] at hnext
      exact (judgedGood_iff hnext).mpr (hchecked before hcalls hpaused hnext)

end

theorem promotions_judged_evaluated :
    let r := rollout twoRings twoRings_ne_nil .default
    (r.after [.evaluate healthySnapshot, .promote]).current = 1 ∧
      JudgedGood r 0 [.evaluate healthySnapshot] := by
  intro r
  have hafter : (r.after [.evaluate healthySnapshot]).current = 0 := by decide +kernel
  have hmoved : (r.after [.evaluate healthySnapshot, .promote]).current = 1 := by decide +kernel
  have hchecked : CallerChecked r 0 ([] ++ [.evaluate healthySnapshot]) :=
    .now ⟨healthySnapshot, rfl, rfl, rfl, by decide +kernel, by decide +kernel⟩
  have hjudged := (promotions_judged_iff twoRings twoRings_ne_nil .default
    [.evaluate healthySnapshot, .promote]).mpr ?_
  · refine ⟨hmoved, hafter ▸ hjudged [.evaluate healthySnapshot] .promote List.prefix_rfl ?_⟩
    intro hsame
    cases hmoved.symm.trans (hsame.trans hafter)
  · intro before hcalls _ _
    -- the one `promote` of the run comes after the evaluation
    have hbefore : before = [.evaluate healthySnapshot] := by
      match before, hcalls with
      | [], h => simp at h
      | [c], h => simpa using h.eq_of_length rfl
      | c :: c' :: rest, h => simpa using h.length_le
    rw [hbefore]
    exact hafter ▸ hchecked

/-- A `promote` on a new rollout moves on from a ring that nobody has looked at. -/
theorem promoted_without_evaluation :
    let r := rollout twoRings twoRings_ne_nil .default
    (r.after []).current = 0 ∧ (r.after [.promote]).current = 1 ∧ ¬ JudgedGood r 0 [] :=
  ⟨rfl, rfl, not_outstanding_nil⟩

end Edgewarden.Rollout
