/-
# Edgewarden.Fleet.CatchUp — after any history one undisturbed sync is enough.

`Fleet.Convergence` says where a `sync_once` that returns `Ok` leaves the agent. Here it does return: in every
state that a fleet can come to, with the control plane up, an agent that is started if it is down and then left
alone for one `register`, one `heartbeat` and the handling of the answer stands at the current policy.

* §1 and §2 are the parts of an undisturbed sync in closed form: the state file of a reachable agent opens, a
  device that has just registered is known, a response handled without faults returns `Ok`.
* `agent_catches_up`: the result. The other agents are where they were, and from the next heartbeat on the roster
  shows the agent at the policy that it should be at.
-/
import Edgewarden.Fleet.Setback

namespace Edgewarden.Fleet

open Edgewarden.Agent Edgewarden.FaultIo Edgewarden.Registry Edgewarden.Serde Edgewarden.State

/-! ## §1 Calls that meet no fault. -/

/-- The state file of a reachable agent opens. -/
theorem openRun_nil {k : Mark} {disk : StoreDisk} (h : FileBehind k disk.file) :
    ∃ s, (openRun [] disk).mem = some s := by
  unfold openRun
  rw [Prog.exec_nil_world]
  rcases h with hnone | ⟨s, hfile, _⟩
  · refine ⟨.fresh, ?_⟩
    rw [hnone]
    rfl
  · refine ⟨s, ?_⟩
    rw [hfile]
    unfold openAgent
    rw [Prog.quiet_bind]
    have hopened : ((openStore (some (.whole s.json))).quiet storeDevice disk).1 = .ok s := decodeStore_whole s
    rw [hopened]
    rfl

/-- Without faults the handling of a message returns `Ok`. -/
theorem returns_nil {s s' : StateStore} {d : DesiredState} {before after : Option (Contents Json)}
    {r : Except StateError Bool} (h : Returns s d [] before r s' after) : ∃ applied, r = .ok applied := by
  have hingest : ingestFault s d [] = .ok := by
    unfold ingestFault
    split <;> rfl
  have hmark : markFault s d [] = .ok := by
    unfold markFault
    split <;> rfl
  cases h with
  | ingestFailed hfault => cases hingest.symm.trans hfault
  | kept _ _ => exact ⟨false, rfl⟩
  | markFailed _ _ hfault => cases hmark.symm.trans hfault
  | applied _ _ _ => exact ⟨true, rfl⟩

/-- A response that is handled without faults is handled. -/
theorem handleReplies_nil (s : StateStore) (hb : HeartbeatResponse) (disk : StoreDisk) :
    ∃ applied, handleReplies s hb [] disk = [.ok applied] := by
  unfold handleReplies handleRun
  by_cases hnone : hb.hasPolicy = true → hb.policy = none
  · rw [handle_no_policy hnone]
    exact ⟨false, rfl⟩
  · obtain ⟨hhas, hsome⟩ := Classical.not_imp.mp hnone
    obtain ⟨p, hp⟩ := Option.ne_none_iff_exists'.mp hsome
    have hends := (handle_ends (s := s) hhas hp [] disk).outcome none (some s)
    have hreply := Prog.exec_nil_reply storeDevice none (handle s hb) (some s) disk
    rcases hends with ⟨_, _, _, hdead⟩ | ⟨_, disk', b, m', ⟨r, s', hb', hreturns⟩, _, hreplies⟩
    · cases hdead.symm.trans hreply
    · obtain ⟨rfl, -⟩ := Prod.mk.inj hb'
      obtain ⟨applied, rfl⟩ := returns_nil hreturns
      exact ⟨applied, hreplies⟩

/-! ## §2 One sync. -/

/-- The calls of one `sync_once` of agent `a`. -/
def undisturbedSync {ι : Type} (a : ι) (now : UInt64) (usage : ResourceUsage) (active : UInt64) : List (FleetEvent ι) :=
  [.register a now false, .heartbeat a now usage active false, .finish a []]

/-- What was under way at agent `a` fails, and its process is started if it is down. -/
def startOver {ι : Type} (a : ι) : List (FleetEvent ι) := [.fail a, .reopen a []]

section Sync

variable {ι : Type} [DecidableEq ι] {cfg : ι → AgentConfig} {w : FleetState ι} {k : Mark} {a : ι} {r : Inner}
  {s : StateStore}

/-- Agent `a` runs with store `s` and has come to `phase`; the control plane runs with registry `r`. -/
structure Stands (w : FleetState ι) (a : ι) (s : StateStore) (phase : SyncPhase) (r : Inner) : Prop where
  mem : (w.agents a).mem = some s
  phase : (w.agents a).phase = phase
  registry : w.registry = some r

/-- All agents but `a` are where they were. -/
def OthersKept (a : ι) (w w' : FleetState ι) : Prop := ∀ b, b ≠ a → w'.agents b = w.agents b

omit [DecidableEq ι] in
theorem OthersKept.trans {w' w'' : FleetState ι} (h : OthersKept a w w') (h' : OthersKept a w' w'') :
    OthersKept a w w'' :=
  fun b hb => (h' b hb).trans (h b hb)

theorem othersKept_setAgent (w : FleetState ι) (a : ι) (st : AgentState) : OthersKept a w (w.setAgent a st) :=
  fun _ hb => setAgent_other w st hb

theorem after_append (cfg : ι → AgentConfig) (events more : List (FleetEvent ι)) :
    FleetState.after cfg (events ++ more) = (FleetState.after cfg events).runFrom cfg more := by
  unfold FleetState.after FleetState.runFrom
  rw [List.foldl_append]

theorem stands_startOver (h : FleetInv k w) (hr : w.registry = some r) (cfg : ι → AgentConfig) (a : ι) :
    ∃ s, Stands (w.runFrom cfg (startOver a)) a s .idle r ∧ OthersKept a w (w.runFrom cfg (startOver a)) := by
  have hrun : w.runFrom cfg (startOver a) = (w.setPhase a .idle).reopen a [] := rfl
  have hself : (w.setPhase a .idle).agents a = { w.agents a with phase := .idle } := setAgent_same w a _
  have hother : OthersKept a w (w.setPhase a .idle) := othersKept_setAgent w a _
  rw [hrun]
  unfold FleetState.reopen
  cases hmem : (w.agents a).mem with
  | some s =>
      simp only [hself, hmem]
      refine ⟨s, ⟨?_, ?_, hr⟩, hother⟩
      · rw [hself]
        exact hmem
      · rw [hself]
  | none =>
      obtain ⟨s, hs⟩ := openRun_nil (h.agents a).disk
      simp only [hself, hmem]
      refine ⟨s, ⟨?_, ?_, hr⟩, hother.trans (othersKept_setAgent _ a _)⟩
      · rw [setAgent_same]
        exact hs
      · rw [setAgent_same]

theorem stands_register (h : Stands w a s .idle r) (cfg : AgentConfig) (now : UInt64) :
    Stands (w.register cfg a now false) a s .registered (r.register now (registerRequest cfg s).args).2 ∧
      OthersKept a w (w.register cfg a now false) := by
  have hop : w.register cfg a now false =
      (w.operate (.register now (registerRequest cfg s).args)).setPhase a .registered := by
    unfold FleetState.register
    simp only [h.mem, h.phase, h.registry, Option.isSome_some, Bool.not_false, Bool.and_self, if_true]
  rw [hop]
  unfold FleetState.setPhase
  refine ⟨⟨?_, ?_, ?_⟩, ?_⟩
  · rw [setAgent_same, operate_agents]
    exact h.mem
  · rw [setAgent_same]
  · show (w.operate (.register now (registerRequest cfg s).args)).registry = _
    unfold FleetState.operate
    simp only [h.registry]
    rw [step_inner]
    rfl
  · intro b hb
    rw [setAgent_other _ _ hb, operate_agents]

theorem stands_heartbeat (h : Stands w a s .registered r) (cfg : AgentConfig) (now : UInt64) (usage : ResourceUsage)
    (active : UInt64) {d : DeviceRecord} (hknown : r.devices.lookup cfg.deviceId = some d) :
    Stands (w.heartbeat cfg a now usage active false) a s
        (.answered ⟨r.policyVersion, r.policy, true, r.desiredSoftware, r.policySeq⟩)
        (serveHeartbeat r now (heartbeatRequest cfg s usage active)).2 ∧
      OthersKept a w (w.heartbeat cfg a now usage active false) := by
  have hserved : (serveHeartbeat r now (heartbeatRequest cfg s usage active)).1 =
      .ok ⟨r.policyVersion, r.policy, true, r.desiredSoftware, r.policySeq⟩ := serveHeartbeat_known hknown
  unfold FleetState.heartbeat
  simp only [h.mem, h.phase, h.registry, hserved, heartbeatPhase]
  unfold FleetState.setPhase
  refine ⟨⟨?_, ?_, rfl⟩, othersKept_setAgent _ a _⟩
  · rw [setAgent_same]
    exact h.mem
  · rw [setAgent_same]

theorem stands_finish (hinv : FleetInv k w) {hb : HeartbeatResponse} {p : Policy}
    (h : Stands w a s (.answered hb) r) (hp : hb.policy = some p) :
    ∃ s', Stands (w.finish a []) a s' .idle r ∧ s'.reported.policyVersion = p.version ∧
      OthersKept a w (w.finish a []) := by
  have hok : ∃ applied, w.replies a [] = [.ok applied] := by
    unfold FleetState.replies
    simp only [h.mem, h.phase]
    exact handleReplies_nil s hb _
  obtain ⟨applied, hreplies⟩ := hok
  obtain ⟨s', hs', hversion⟩ := hinv.finish_version h.phase hp hreplies
  refine ⟨s', ⟨hs', ?_, ?_⟩, hversion, ?_⟩
  · unfold FleetState.finish
    simp only [h.mem, h.phase]
    rw [setAgent_same]
  · unfold FleetState.finish
    simp only [h.mem, h.phase]
    exact h.registry
  · unfold FleetState.finish
    simp only [h.mem, h.phase]
    exact othersKept_setAgent w a _

/-- The record of a device that has reported store `s` to a registry that wants `p`. -/
structure Shown (cfg : AgentConfig) (s : StateStore) (p : Policy) (now : UInt64) (r : Inner) : Prop where
  policy : r.policy = some p
  record : ∃ d, r.devices.lookup cfg.deviceId = some d ∧ d.reportedPolicyVersion = reportedVersion s ∧
    d.desiredPolicyVersion = p.version ∧ d.lastSeenSecs = now

/-- **An undisturbed sync**, wherever the agent stands. -/
theorem sync_undisturbed (hinv : FleetInv k w) (h : Stands w a s .idle r) {p : Policy} (hp : r.policy = some p)
    (cfg : ι → AgentConfig) (now : UInt64) (usage : ResourceUsage) (active : UInt64) :
    ∃ s' r', Stands (w.runFrom cfg (undisturbedSync a now usage active)) a s' .idle r' ∧
      s'.reported.policyVersion = p.version ∧ Shown (cfg a) s p now r' ∧
      OthersKept a w (w.runFrom cfg (undisturbedSync a now usage active)) ∧
      ∃ k', FleetInv k' (w.runFrom cfg (undisturbedSync a now usage active)) := by
  set args := (registerRequest (cfg a) s).args
  set r₁ := (r.register now args).2
  set req := heartbeatRequest (cfg a) s usage active
  have hknown : r₁.devices.lookup (cfg a).deviceId = some (r.newRecord now args) := AList.lookup_insert _
  obtain ⟨hregistered, hothers₁⟩ := stands_register h (cfg a) now
  obtain ⟨k₁, hinv₁⟩ := hinv.step cfg (.register a now false)
  obtain ⟨hanswered, hothers₂⟩ := stands_heartbeat hregistered (cfg a) now usage active hknown
  obtain ⟨k₂, hinv₂⟩ := hinv₁.step cfg (.heartbeat a now usage active false)
  obtain ⟨s', hfinished, hversion, hothers₃⟩ := stands_finish hinv₂ hanswered hp
  refine ⟨s', (serveHeartbeat r₁ now req).2, hfinished, hversion, ?_,
    (hothers₁.trans hothers₂).trans hothers₃, hinv₂.step cfg (.finish a [])⟩
  rw [serveHeartbeat_registry]
  have hrecord : ((Op.heartbeat now req.update).apply r₁).2.devices.lookup req.update.deviceId =
      some (r₁.refreshed now req.update (r.newRecord now args)) := lookup_heartbeat hknown
  refine ⟨?_, _, hrecord, rfl, ?_, rfl⟩
  · exact ((Op.heartbeat now req.update).apply_sameRoster rfl).policy.trans hp
  · show r₁.policyVersion = p.version
    unfold Inner.policyVersion
    rw [show r₁.policy = some p from hp]
    rfl

/-! ## §3 After any history. -/

/-- **One undisturbed sync is enough.** After any run of a fleet whose control plane persists (one mutation at a time,
each with its snapshot) that leaves it up with policy `p`: let what is under way at agent `a` fail and start its
process if it is down. One `sync_once` without faults then leaves the agent at the version of `p`, and after the next
the roster shows that version as reported and as desired, and the device as just seen. No other agent has moved. -/
theorem agent_catches_up (cfg : ι → AgentConfig) (events : List (FleetEvent ι)) (a : ι) (r : Inner) (p : Policy)
    (hr : (FleetState.after cfg events).registry = some r) (hp : r.policy = some p) (now now' : UInt64)
    (usage usage' : ResourceUsage) (active active' : UInt64) :
    let w := FleetState.after cfg events
    let w' := FleetState.after cfg (events ++ (startOver a ++ undisturbedSync a now usage active))
    let w'' := FleetState.after cfg
      (events ++ (startOver a ++ undisturbedSync a now usage active) ++ undisturbedSync a now' usage' active')
    (∃ s, (w'.agents a).mem = some s ∧ s.reported.policyVersion = p.version) ∧
      (∃ r' d, w''.registry = some r' ∧ r'.policy = some p ∧ r'.devices.lookup (cfg a).deviceId = some d ∧
        d.reportedPolicyVersion = toString p.version.toNat ∧ d.desiredPolicyVersion = p.version ∧
        d.lastSeenSecs = now') ∧
      OthersKept a w w'' := by
  intro w w' w''
  obtain ⟨k, hinv⟩ := fleetInv_after cfg events
  obtain ⟨s₀, hstands₀, hothers₀⟩ := stands_startOver hinv hr cfg a
  rw [← after_append] at hstands₀ hothers₀
  obtain ⟨k₀, hinv₀⟩ := fleetInv_after cfg (events ++ startOver a)
  obtain ⟨s₁, r₁, hstands₁, hversion, hshown₁, hothers₁, k₁, hinv₁⟩ :=
    sync_undisturbed hinv₀ hstands₀ hp cfg now usage active
  rw [← after_append, List.append_assoc] at hstands₁ hothers₁ hinv₁
  obtain ⟨s₂, r₂, hstands₂, _, hshown₂, hothers₂, _⟩ :=
    sync_undisturbed hinv₁ hstands₁ hshown₁.policy cfg now' usage' active'
  rw [← after_append] at hstands₂ hothers₂
  obtain ⟨d, hd, hreported, hdesired, hseen⟩ := hshown₂.record
  have hshows : reportedVersion s₁ = toString p.version.toNat := by
    unfold reportedVersion
    rw [hversion]
  exact ⟨⟨s₁, hstands₁.mem, hversion⟩,
    ⟨r₂, d, hstands₂.registry, hshown₂.policy, hd, hreported.trans hshows, hdesired, hseen⟩,
    (hothers₀.trans hothers₁).trans hothers₂⟩

end Sync

/-- An agent that crashed before its first sync. -/
theorem agent_catches_up_crashed :
    let cfg : Unit → AgentConfig := fun _ => ⟨"edge-01", "dev-hw", "0.1.0"⟩
    let events : List (FleetEvent Unit) := [.operation (.setPolicy { Policy.default with version := 5 }), .crash ()]
    ∃ s, ((FleetState.after cfg (events ++ (startOver () ++ undisturbedSync () 7 ⟨F64.zero, 0, 0, 0⟩ 0))).agents
      ()).mem = some s ∧ s.reported.policyVersion = 5 :=
  (agent_catches_up _ _ () (Inner.empty.setPolicy { Policy.default with version := 5 }).2
    { Policy.default with version := 5 } rfl rfl 7 8 ⟨F64.zero, 0, 0, 0⟩ ⟨F64.zero, 0, 0, 0⟩ 0 0).1

end Edgewarden.Fleet
