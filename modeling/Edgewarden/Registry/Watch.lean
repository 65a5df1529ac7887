/-
# Edgewarden.Registry.Watch — the `watch` handler of `control-plane/src/service.rs`.

The server half of the stream: one report of an edge in, one command out. The handler makes the registry call
of a heartbeat and then, unlike the `heartbeat` handler, does not look at its result. It reads the current
policy and pushes it to whoever reports another version at a lower seq.

* `watch_admits_iff`: `watch` treats a report as `heartbeat` treats the same report if and only if the device
  is in the roster or there is nothing to push. `unknown_device_served` is a device that `heartbeat` refuses
  and `watch` gives the policy.

The manifest of an `OtaUpdate` is left out: the server does not send one, and the edge does not read it.
-/
import Edgewarden.Lib.Text
import Edgewarden.Registry.Service

namespace Edgewarden.Registry

open Edgewarden.Serde Edgewarden.State Edgewarden.Text

/-! ## §1 Messages. -/

structure EdgeReport where
  deviceId : String
  reportedPolicyVersion : String
  reportedSoftwareVersion : String
  health : Int32
  usage : Option ResourceUsage
  activeConnections : UInt64
  appliedSeq : Nat
  deriving DecidableEq, Repr

inductive Command
  | policyUpdate (policy : Option Policy)
  | otaUpdate
  | noop
  deriving DecidableEq, Repr

structure CloudCommand where
  seq : Nat
  command : Option Command
  deriving DecidableEq, Repr

/-- The command that delivers policy `p` at `seq`. -/
def CloudCommand.update (seq : Nat) (p : Policy) : CloudCommand := ⟨seq, some (.policyUpdate (some p))⟩

/-- The liveness reply. -/
def CloudCommand.noop (appliedHint : Nat) : CloudCommand := ⟨appliedHint, some .noop⟩

theorem CloudCommand.update_ne_noop (seq hint : Nat) (p : Policy) : update seq p ≠ noop hint := by
  simp [update, noop]

/-! ## §2 The handler. -/

/-- The registry call of the `watch` handler. -/
def EdgeReport.heartbeat (rep : EdgeReport) : HeartbeatUpdate where
  deviceId := rep.deviceId
  reportedPolicy := rep.reportedPolicyVersion
  reportedSoftware := rep.reportedSoftwareVersion
  health := rep.health
  cpu := (rep.usage.map fun u => u.cpuUsage).getD F64.zero
  mem := (rep.usage.map fun u => u.memoryBytes).getD 0
  active := rep.activeConnections
  uptime := (rep.usage.map fun u => u.uptimeSecs).getD 0

/-- `rep.reported_policy_version.parse::<u64>().unwrap_or(0)`. -/
def EdgeReport.parsedVersion (rep : EdgeReport) : Nat := (parseU64 rep.reportedPolicyVersion.toList).getD 0

/-- What the handler answers when it has read the current policy. -/
def EdgeReport.answer (rep : EdgeReport) : Option Policy × Nat → CloudCommand
  | (some p, seq) =>
      if seq > rep.appliedSeq ∧ rep.parsedVersion ≠ p.version.toNat then .update seq p else .noop rep.appliedSeq
  | (none, _) => .noop rep.appliedSeq

/-- One report, with nothing in between the handler's two registry calls. -/
def serveReport (r : Inner) (now : UInt64) (rep : EdgeReport) : CloudCommand × Inner :=
  -- `let _ =`: whether the device is known is not looked at
  let r' := (r.heartbeatUpdate now rep.heartbeat).2
  (rep.answer r'.currentPolicy, r')

/-- There is newer desired state for the report: the handler's own test, on the registry before. -/
def Inner.Outdates (r : Inner) (rep : EdgeReport) : Prop :=
  ∃ p, r.policy = some p ∧ r.policySeq > rep.appliedSeq ∧ rep.parsedVersion ≠ p.version.toNat

section

variable {r : Inner} {now : UInt64} {rep : EdgeReport}

theorem heartbeatUpdate_currentPolicy (r : Inner) (now : UInt64) (u : HeartbeatUpdate) :
    (r.heartbeatUpdate now u).2.currentPolicy = r.currentPolicy := by
  unfold Inner.heartbeatUpdate
  split <;> rfl

/-- The answer is about the registry that the report finds. -/
theorem serveReport_answer : (serveReport r now rep).1 = rep.answer r.currentPolicy := by
  simp only [serveReport, heartbeatUpdate_currentPolicy]

/-- **What the handler delivers, and when.** -/
theorem serveReport_eq_update_iff {seq : Nat} {p : Policy} :
    (serveReport r now rep).1 = .update seq p ↔
      r.policy = some p ∧ r.policySeq = seq ∧ seq > rep.appliedSeq ∧ rep.parsedVersion ≠ p.version.toNat := by
  rw [serveReport_answer]
  unfold Inner.currentPolicy EdgeReport.answer
  cases hpolicy : r.policy with
  | none => simp [CloudCommand.update, CloudCommand.noop]
  | some q =>
      simp only
      split
      · rename_i hpush
        constructor
        · intro heq
          simp only [CloudCommand.update, CloudCommand.mk.injEq, Option.some.injEq, Command.policyUpdate.injEq] at heq
          obtain ⟨rfl, rfl⟩ := heq
          exact ⟨rfl, rfl, hpush⟩
        · rintro ⟨hq, rfl, _⟩
          rw [Option.some.inj hq]
      · rename_i hkeep
        refine iff_of_false (fun heq => CloudCommand.update_ne_noop _ _ _ heq.symm) ?_
        rintro ⟨hq, rfl, hpush⟩
        rw [Option.some.inj hq] at hkeep
        exact hkeep hpush

/-- Every other answer is the noop. -/
theorem serveReport_noop (h : ¬ r.Outdates rep) : (serveReport r now rep).1 = .noop rep.appliedSeq := by
  rw [serveReport_answer]
  unfold Inner.currentPolicy EdgeReport.answer
  cases hpolicy : r.policy with
  | none => rfl
  | some q =>
      simp only
      rw [if_neg]
      rintro ⟨hseq, hversion⟩
      exact h ⟨q, hpolicy, hseq, hversion⟩

theorem outdates_iff (now : UInt64) : r.Outdates rep ↔ ∃ seq p, (serveReport r now rep).1 = .update seq p := by
  simp only [serveReport_eq_update_iff, Inner.Outdates]
  constructor
  · rintro ⟨p, hpolicy, hseq, hversion⟩
    exact ⟨_, p, hpolicy, rfl, hseq, hversion⟩
  · rintro ⟨seq, p, hpolicy, rfl, hseq, hversion⟩
    exact ⟨p, hpolicy, hseq, hversion⟩

/-- An answer is a policy or the noop. -/
theorem serveReport_cases :
    (∃ seq p, (serveReport r now rep).1 = .update seq p) ∨ (serveReport r now rep).1 = .noop rep.appliedSeq := by
  by_cases h : r.Outdates rep
  · exact .inl ((outdates_iff now).mp h)
  · exact .inr (serveReport_noop h)

end

/-! ## §3 Watch and heartbeat. -/

/-- The `heartbeat` request with the fields of the report. -/
def EdgeReport.request (rep : EdgeReport) : HeartbeatRequest where
  deviceId := rep.deviceId
  reportedPolicyVersion := rep.reportedPolicyVersion
  reportedSoftwareVersion := rep.reportedSoftwareVersion
  health := rep.health
  usage := rep.usage
  activeConnections := rep.activeConnections

/-- `watch` treats the report as `heartbeat` treats it: the registry is the same afterwards, and a policy is
delivered only if `heartbeat` answers with it. -/
def AdmitsAlike (r : Inner) (now : UInt64) (rep : EdgeReport) : Prop :=
  (serveReport r now rep).2 = (serveHeartbeat r now rep.request).2 ∧
    ∀ seq p, (serveReport r now rep).1 = .update seq p →
      ∃ hb, (serveHeartbeat r now rep.request).1 = .ok hb ∧ hb.policy = some p ∧ hb.desiredSeq = seq

/-- Both handlers make the same registry call. -/
theorem serveReport_registry (r : Inner) (now : UInt64) (rep : EdgeReport) :
    (serveReport r now rep).2 = (serveHeartbeat r now rep.request).2 := by
  rw [serveHeartbeat_registry]
  rfl

/-- **When `watch` admits what `heartbeat` admits**: for every registry, clock and report, exactly when the
device is in the roster or the registry has nothing newer for it. -/
theorem watch_admits_iff (r : Inner) (now : UInt64) (rep : EdgeReport) :
    AdmitsAlike r now rep ↔ rep.deviceId ∈ r.devices ∨ ¬ r.Outdates rep := by
  constructor
  · rintro ⟨_, hdelivers⟩
    by_contra hbad
    obtain ⟨hunknown, houtdates⟩ := not_or.mp hbad
    obtain ⟨seq, p, hupdate⟩ := (outdates_iff now).mp (not_not.mp houtdates)
    obtain ⟨hb, hok, _⟩ := hdelivers seq p hupdate
    have hnone : r.devices.lookup rep.request.deviceId = none := AList.lookup_eq_none.mpr hunknown
    rw [serveHeartbeat_unknown hnone] at hok
    cases hok
  · intro hgood
    refine ⟨serveReport_registry r now rep, ?_⟩
    intro seq p hupdate
    have houtdates : r.Outdates rep := (outdates_iff now).mpr ⟨seq, p, hupdate⟩
    have hknown : rep.request.deviceId ∈ r.devices := hgood.resolve_right (not_not.mpr houtdates)
    obtain ⟨d, hd⟩ := Option.isSome_iff_exists.mp (AList.lookup_isSome.mpr hknown)
    obtain ⟨hpolicy, hseq, _⟩ := serveReport_eq_update_iff.mp hupdate
    exact ⟨_, serveHeartbeat_known hd, hpolicy, hseq⟩

/-- A registry with version 5 and no devices, and a report of a device it has never seen: `heartbeat` refuses
the device, `watch` gives it the policy. -/
theorem unknown_device_served :
    let p : Policy := { Policy.default with version := 5 }
    let r : Inner := ⟨∅, some p, 1, ""⟩
    let rep : EdgeReport := ⟨"ghost", "0", "", 1, none, 0, 0⟩
    r = (ControlPlane.after [.setPolicy p]).inner ∧
      (serveHeartbeat r 7 rep.request).1 = .error (.notFound "unknown device; register first") ∧
      (serveReport r 7 rep).1 = .update 1 p ∧ ¬ AdmitsAlike r 7 rep := by
  intro p r rep
  have hrefused : (serveHeartbeat r 7 rep.request).1 = .error (.notFound "unknown device; register first") := by
    decide +kernel
  have hserved : (serveReport r 7 rep).1 = .update 1 p := by decide +kernel
  refine ⟨rfl, hrefused, hserved, ?_⟩
  rintro ⟨_, hdelivers⟩
  obtain ⟨hb, hok, _⟩ := hdelivers 1 p hserved
  rw [hrefused] at hok
  cases hok

end Edgewarden.Registry
