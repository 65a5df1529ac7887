/-
# Edgewarden.Agent.Watch — the edge half of `watch`: `EdgeAgent::run_watch` of `edge-agent/src/agent.rs`.

One report out, commands in. A policy is handed to the store as `sync_once` hands over the policy of a
heartbeat response, by a second piece of code with three differences: errors of the store are ignored, a
missing upstream is not completed, and the software version, which the command does not carry, is empty.

* `watch_filter_agrees`: what the server pushes is what the edge would apply. The server compares a version
  that the edge has written in decimal, the edge raises a seq of 0 to 1; neither makes a difference for a
  registry that can come about. The command is processed once: the next report is answered with a noop.
* `watch_delivers_as_heartbeat`: a policy with an upstream that comes as a command leaves the store as the
  heartbeat response does, up to the software version of the recorded desired state.
-/
import Edgewarden.Agent.Sync
import Edgewarden.Registry.Roster
import Edgewarden.Registry.Watch

namespace Edgewarden.Agent

open Edgewarden.FaultIo Edgewarden.Registry Edgewarden.Serde Edgewarden.State Edgewarden.Text

/-! ## §1 Reports and commands. -/

/-- The report `run_watch` sends. -/
def edgeReport (cfg : AgentConfig) (s : StateStore) (usage : ResourceUsage) : EdgeReport where
  deviceId := cfg.deviceId
  reportedPolicyVersion := reportedVersion s
  reportedSoftwareVersion := s.reported.softwareVersion
  health := 1
  usage := some usage
  activeConnections := 0
  appliedSeq := s.reported.appliedSeq

/-- The desired state `run_watch` builds from a command with policy `p`. -/
def watchDesired (seq : Nat) (p : Policy) : DesiredState where
  seq := max seq 1
  policy := p
  softwareVersion := ""

/-- What `run_watch` does with a command. -/
def handleCommand (cmd : CloudCommand) : StoreM Unit := do
  match cmd.command with
  | some (.policyUpdate (some p)) =>
      let desired := watchDesired cmd.seq p
      -- `if let Ok(..)` here and `let _ =` below: an error of the store goes nowhere
      match ← (ingest desired).observed with
      | .ok (.applyPolicy pol) =>
          let _ ← (markPolicyApplied pol desired.seq).observed
          return ()
      | _ => return ()
  | _ => return ()

/-- The store after a command, when no file operation fails. -/
def afterCommand (s : StateStore) (disk : StoreDisk) (cmd : CloudCommand) : StateStore :=
  ((handleCommand cmd).quiet storeDevice s disk).1.2

/-- The store after a heartbeat response, when no file operation fails. -/
def afterResponse (s : StateStore) (disk : StoreDisk) (hb : HeartbeatResponse) : StateStore :=
  ((handleResponse hb).quiet storeDevice s disk).1.2

section

variable {s : StateStore} {disk : StoreDisk}

theorem afterCommand_update (seq : Nat) (p : Policy) :
    afterCommand s disk (.update seq p) = s.process (watchDesired seq p) := by
  obtain ⟨disk', hingest⟩ := quiet_ingest s (watchDesired seq p) disk
  unfold afterCommand handleCommand StateStore.process
  simp only [CloudCommand.update]
  rw [Method.quiet_bind_ok (Method.quiet_observed hingest)]
  cases s.reported.diff (watchDesired seq p) <;> rfl

theorem afterCommand_noop (hint : Nat) : afterCommand s disk (.noop hint) = s := rfl

theorem afterResponse_policy (hb : HeartbeatResponse) {p : Policy} (hhas : hb.hasPolicy = true)
    (hp : hb.policy = some p) : afterResponse s disk hb = s.process (desiredOf s hb p) := by
  unfold afterResponse handleResponse
  rw [if_pos hhas, hp, Method.quiet_get]
  exact quiet_processMessage s _ disk

end

/-! ## §2 The two filters. -/

/-- The version that the server reads is the version that the edge has. -/
theorem parsedVersion_edgeReport (cfg : AgentConfig) (s : StateStore) (usage : ResourceUsage) :
    (edgeReport cfg s usage).parsedVersion = s.reported.policyVersion.toNat := by
  have hread : parseU64 (toString s.reported.policyVersion.toNat).toList = some s.reported.policyVersion.toNat :=
    parseU64_toString s.reported.policyVersion.toNat_lt
  show (parseU64 (toString s.reported.policyVersion.toNat).toList).getD 0 = _
  rw [hread]
  rfl

section

variable {cfg : AgentConfig} {s : StateStore} {usage : ResourceUsage} {r : Inner} {now : UInt64}

/-- What the server pushes to a report of the edge. -/
theorem serveReport_edgeReport_iff {seq : Nat} {p : Policy} :
    (serveReport r now (edgeReport cfg s usage)).1 = .update seq p ↔
      r.policy = some p ∧ r.policySeq = seq ∧ s.reported.appliedSeq < seq ∧
        p.version ≠ s.reported.policyVersion := by
  have hversion : s.reported.policyVersion.toNat ≠ p.version.toNat ↔ p.version ≠ s.reported.policyVersion := by
    rw [ne_comm, ne_eq, ne_eq, UInt64.toNat_inj]
  rw [serveReport_eq_update_iff, parsedVersion_edgeReport, hversion]
  exact Iff.rfl

/-- What the edge applies of a policy at a seq that is not zero. -/
theorem diff_watchDesired_iff {seq : Nat} {p : Policy} (hseq : 0 < seq) :
    s.reported.diff (watchDesired seq p) = .applyPolicy p ↔
      s.reported.appliedSeq < seq ∧ p.version ≠ s.reported.policyVersion := by
  have hmax : (watchDesired seq p).seq = seq := Nat.max_eq_left hseq
  rw [diff_eq_applyPolicy_iff, hmax]
  simp [watchDesired]

/-- The two filters, for a registry that can come about. -/
theorem serveReport_iff_diff {ops : List Op} (h : History ops r) {seq : Nat} {p : Policy} :
    (serveReport r now (edgeReport cfg s usage)).1 = .update seq p ↔
      r.currentPolicy = (some p, seq) ∧ s.reported.diff (watchDesired seq p) = .applyPolicy p := by
  rw [serveReport_edgeReport_iff, Inner.currentPolicy, Prod.mk.injEq, and_assoc]
  constructor
  · rintro ⟨hpolicy, rfl, hnewer⟩
    exact ⟨hpolicy, rfl, (diff_watchDesired_iff (h.seq_pos hpolicy)).mpr hnewer⟩
  · rintro ⟨hpolicy, rfl, hdiff⟩
    exact ⟨hpolicy, rfl, (diff_watchDesired_iff (h.seq_pos hpolicy)).mp hdiff⟩

/-- The handler looks at the desired state only. -/
theorem serveReport_congr {r' : Inner} (h : r.SameDesired r') (now' : UInt64) (rep : EdgeReport) :
    (serveReport r' now' rep).1 = (serveReport r now rep).1 := by
  rw [serveReport_answer, serveReport_answer]
  simp [Inner.currentPolicy, h.policy, h.policySeq]

/-- A registry whose policy has the version of the store has nothing for it. -/
theorem serveReport_same_version (h : ∀ p, r.policy = some p → p.version = s.reported.policyVersion) :
    (serveReport r now (edgeReport cfg s usage)).1 = .noop s.reported.appliedSeq := by
  refine serveReport_noop ?_
  rintro ⟨p, hpolicy, _, hne⟩
  rw [parsedVersion_edgeReport, h p hpolicy] at hne
  exact hne rfl

/-- A command that the server pushed is processed once: the store then has the version of the policy. -/
theorem afterCommand_version {disk : StoreDisk} {seq : Nat} {p : Policy}
    (h : (serveReport r now (edgeReport cfg s usage)).1 = .update seq p) :
    (afterCommand s disk (.update seq p)).reported.policyVersion = p.version := by
  obtain ⟨_, _, hnewer, hversion⟩ := serveReport_edgeReport_iff.mp h
  have hlt : s.reported.appliedSeq < (watchDesired seq p).seq := Nat.lt_of_lt_of_le hnewer (Nat.le_max_left _ _)
  have hpair := s.process_reported (watchDesired seq p)
  rw [if_pos ⟨hlt, hversion⟩] at hpair
  rw [afterCommand_update]
  exact (Prod.mk.inj hpair).1

/-- The report after the command. The usage it carries does not matter. -/
theorem serveReport_afterCommand (disk : StoreDisk) (usage' : ResourceUsage) :
    let s' := afterCommand s disk (serveReport r now (edgeReport cfg s usage)).1
    (serveReport r now (edgeReport cfg s' usage')).1 = .noop s'.reported.appliedSeq := by
  intro s'
  have hcases : (∃ seq p, (serveReport r now (edgeReport cfg s usage)).1 = .update seq p) ∨
      (serveReport r now (edgeReport cfg s usage)).1 = .noop s.reported.appliedSeq := serveReport_cases
  rcases hcases with ⟨seq, p, hupdate⟩ | hnoop
  · have hversion : s'.reported.policyVersion = p.version := by
      simp only [s', hupdate]
      exact afterCommand_version hupdate
    refine serveReport_same_version fun q hq => ?_
    rw [(serveReport_edgeReport_iff.mp hupdate).1] at hq
    rw [hversion, Option.some.inj hq]
  · -- the store is as it was, and so is what the handler reads of its report
    have hsame : s' = s := by
      simp only [s', hnoop]
      exact afterCommand_noop _
    rw [hsame, ← hnoop]
    simp only [serveReport_answer]
    rfl

end

/-- **The server's filter is the edge's.** For every registry that can come about, every store and its report:
the server pushes `p` at `seq` exactly when these are the current ones and the edge's own difference asks for
`p`, and answers with a noop otherwise. When the edge has processed the command, and no file operation has
failed, its next report is answered with a noop by every registry with the same desired state. -/
theorem watch_filter_agrees (ops : List Op) (r : Inner) (h : History ops r) (cfg : AgentConfig) (s : StateStore)
    (usage : ResourceUsage) (now : UInt64) :
    let cmd := (serveReport r now (edgeReport cfg s usage)).1
    (∀ seq p, cmd = .update seq p ↔
        r.currentPolicy = (some p, seq) ∧ s.reported.diff (watchDesired seq p) = .applyPolicy p) ∧
      ((∀ seq p, r.currentPolicy = (some p, seq) → s.reported.diff (watchDesired seq p) ≠ .applyPolicy p) →
        cmd = .noop s.reported.appliedSeq) ∧
      ∀ disk r' now' usage', r.SameDesired r' →
        (serveReport r' now' (edgeReport cfg (afterCommand s disk cmd) usage')).1 =
          .noop (afterCommand s disk cmd).reported.appliedSeq := by
  intro cmd
  refine ⟨fun seq p => serveReport_iff_diff h, fun hnone => ?_, ?_⟩
  · rcases serveReport_cases with ⟨seq, p, hupdate⟩ | hnoop
    · -- a push would be one that the edge applies
      obtain ⟨hcurrent, hdiff⟩ := (serveReport_iff_diff h).mp hupdate
      exact absurd hdiff (hnone seq p hcurrent)
    · exact hnoop
  · intro disk r' now' usage' hsame
    rw [serveReport_congr hsame now']
    exact serveReport_afterCommand disk usage'

def noUsage : ResourceUsage := ⟨F64.zero, 0, 0, 0⟩

/-- Version 5, for an upstream of its own. -/
def versionFive : Policy := { Policy.default with version := 5, defaultUpstream := "10.0.0.9:80" }

/-- A registry with one device, version 5 and a desired software. -/
def taskedRegistry : Inner :=
  (ControlPlane.after [.register 7 ⟨"edge-1", "hw-1", "1.0.0", "0", ""⟩, .setPolicy versionFive,
    .setDesiredSoftware "2.0.0"]).inner

theorem watch_filter_agrees_tasked :
    (serveReport taskedRegistry 8 (edgeReport anEdge .fresh noUsage)).1 = .update 2 versionFive ↔
      taskedRegistry.currentPolicy = (some versionFive, 2) ∧
        StateStore.fresh.reported.diff (watchDesired 2 versionFive) = .applyPolicy versionFive :=
  (watch_filter_agrees _ taskedRegistry (history_after _) anEdge .fresh noUsage 8).1 2 versionFive

/-! ## §3 The two deliveries. -/

/-- `w` is the store of a command and `h` that of a heartbeat response, both from `s`: the desired state was
recorded by both or by neither, and the command records no software version. -/
def RecordedAlike (s w h : StateStore) : Prop :=
  (w.desired = s.desired ∧ h.desired = s.desired) ∨
    ∃ d, h.desired = some d ∧ w.desired = some { d with softwareVersion := "" }

section

variable {s : StateStore} {d : DesiredState}

/-- The report after a message depends on the version and the seq of the message only. -/
theorem applied_reported_congr {p q : Policy} {seq : Nat} (h : p.version = q.version) (r : ReportedState) :
    (r.applyPolicy p seq).2 = (r.applyPolicy q seq).2 := by
  simp [ReportedState.applyPolicy, h]

/-- Whether a message is recorded depends on its seq only. -/
theorem isNewer_congr {d' : DesiredState} (h : d'.seq = d.seq) : s.isNewer d' = s.isNewer d := by
  simp [StateStore.isNewer, h]

end

/-- **A command delivers what a heartbeat response delivers.** Whenever the server pushes policy `p` to a report
of the store, and the heartbeat of the same registry is answered: both leave the same report, and if `p` has an
upstream, both leave the same last-known-good policy and record the same desired state, apart from the software
version, which the command does not carry. -/
theorem watch_delivers_as_heartbeat (cfg : AgentConfig) (s : StateStore) (usage : ResourceUsage) (disk : StoreDisk)
    (r : Inner) (now now' : UInt64) (req : HeartbeatRequest) (hb : HeartbeatResponse) (seq : Nat) (p : Policy)
    (hpush : (serveReport r now (edgeReport cfg s usage)).1 = .update seq p)
    (hhb : (serveHeartbeat r now' req).1 = .ok hb) :
    (afterCommand s disk (.update seq p)).reported = (afterResponse s disk hb).reported ∧
      (p.defaultUpstream ≠ "" →
        (afterCommand s disk (.update seq p)).lastGoodPolicy = (afterResponse s disk hb).lastGoodPolicy ∧
          RecordedAlike s (afterCommand s disk (.update seq p)) (afterResponse s disk hb)) := by
  obtain ⟨hpolicy, hcurrent, hnewer, hversion⟩ := serveReport_edgeReport_iff.mp hpush
  obtain rfl := serveHeartbeat_ok hhb
  subst hcurrent
  let hb : HeartbeatResponse := ⟨r.policyVersion, r.policy, true, r.desiredSoftware, r.policySeq⟩
  have hseq : (desiredOf s hb p).seq = (watchDesired r.policySeq p).seq := rfl
  have hlt : s.reported.appliedSeq < (watchDesired r.policySeq p).seq :=
    Nat.lt_of_lt_of_le hnewer (Nat.le_max_left _ _)
  have hwatch : s.process (watchDesired r.policySeq p) =
      (s.track (watchDesired r.policySeq p)).applied p (watchDesired r.policySeq p).seq :=
    StateStore.process_applied (diff_newer hlt hversion)
  have hsync : s.process (desiredOf s hb p) =
      (s.track (desiredOf s hb p)).applied (desiredOf s hb p).policy (desiredOf s hb p).seq :=
    StateStore.process_applied (diff_newer (hseq ▸ hlt) hversion)
  rw [afterCommand_update, afterResponse_policy hb rfl hpolicy, hwatch, hsync]
  refine ⟨?_, fun hupstream => ?_⟩
  · simp only [StateStore.applied, StateStore.track_reported, hseq]
    exact applied_reported_congr rfl s.reported
  · have hown : (desiredOf s hb p).policy = p := by simp [desiredOf, hupstream]
    refine ⟨hown.symm, ?_⟩
    -- both record the message, or neither does
    simp only [RecordedAlike, StateStore.applied, StateStore.track, isNewer_congr hseq]
    by_cases hnew : s.isNewer (watchDesired r.policySeq p) = true
    · refine .inr ⟨desiredOf s hb p, by simp [hnew], ?_⟩
      have hrecorded : { desiredOf s hb p with softwareVersion := "" } = watchDesired r.policySeq p := by
        simp [desiredOf, watchDesired, hupstream, hb]
      simp [hnew, hrecorded]
    · exact .inl ⟨by simp [hnew], by simp [hnew]⟩

/-- The heartbeat of the device in that registry. -/
def taskedResponse : HeartbeatResponse := ⟨5, some versionFive, true, "2.0.0", 2⟩

theorem watch_delivers_as_heartbeat_tasked :
    (afterCommand .fresh ⟨none, none⟩ (.update 2 versionFive)).reported =
        (afterResponse .fresh ⟨none, none⟩ taskedResponse).reported ∧
      (versionFive.defaultUpstream ≠ "" →
        (afterCommand .fresh ⟨none, none⟩ (.update 2 versionFive)).lastGoodPolicy =
            (afterResponse .fresh ⟨none, none⟩ taskedResponse).lastGoodPolicy ∧
          RecordedAlike .fresh (afterCommand .fresh ⟨none, none⟩ (.update 2 versionFive))
            (afterResponse .fresh ⟨none, none⟩ taskedResponse)) :=
  watch_delivers_as_heartbeat anEdge .fresh noUsage ⟨none, none⟩ taskedRegistry 8 8
    (heartbeatRequest anEdge .fresh noUsage 0) taskedResponse 2 versionFive
    (by decide +kernel) (by decide +kernel)

/-- The recorded desired states are not the same: the response records the software version, the command does
not. -/
theorem command_records_no_software :
    (serveReport taskedRegistry 8 (edgeReport anEdge .fresh noUsage)).1 = .update 2 versionFive ∧
      (serveHeartbeat taskedRegistry 8 (heartbeatRequest anEdge .fresh noUsage 0)).1 = .ok taskedResponse ∧
      (afterCommand .fresh ⟨none, none⟩ (.update 2 versionFive)).desired ≠
        (afterResponse .fresh ⟨none, none⟩ taskedResponse).desired := by
  refine ⟨by decide +kernel, by decide +kernel, ?_⟩
  rw [afterCommand_update, afterResponse_policy taskedResponse rfl rfl]
  decide +kernel

end Edgewarden.Agent
