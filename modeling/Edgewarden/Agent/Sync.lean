/-
# Edgewarden.Agent.Sync — `EdgeAgent::sync_once` of `edge-agent/src/agent.rs`.

One cycle is connect, the `register` RPC, the `heartbeat` RPC, and then the part that this module
models request by request: what the agent does with the heartbeat response. Metrics and TLS do not
influence it.

`handle_outcome` says everything the handling of a response can do, whatever fails and wherever the
process dies.
-/
import Edgewarden.Registry.Service
import Edgewarden.State.Store

namespace Edgewarden.Agent

open Edgewarden.FaultIo Edgewarden.Registry Edgewarden.Serde Edgewarden.State

/-! ## §1 Requests. -/

/-- The part of `AgentConfig` that `sync_once` sends. -/
structure AgentConfig where
  deviceId : String
  hardwareId : String
  softwareVersion : String
  deriving DecidableEq, Repr

/-- The device of the examples. -/
def anEdge : AgentConfig := ⟨"edge-1", "hw-1", "1.0.0"⟩

/-- `AgentError`; `State` keeps the error whose text the source keeps. -/
inductive AgentError
  | transport
  | rpc (status : Status)
  | state (e : StateError)
  deriving DecidableEq, Repr

/-- `self.store.reported.policy_version.to_string()`. -/
def reportedVersion (s : StateStore) : String := toString s.reported.policyVersion.toNat

def registerRequest (cfg : AgentConfig) (s : StateStore) : RegisterRequest where
  identity := some ⟨cfg.deviceId, cfg.hardwareId, cfg.softwareVersion⟩
  reportedPolicyVersion := reportedVersion s
  reportedSoftwareVersion := s.reported.softwareVersion

def heartbeatRequest (cfg : AgentConfig) (s : StateStore) (usage : ResourceUsage)
    (activeConnections : UInt64) : HeartbeatRequest where
  deviceId := cfg.deviceId
  reportedPolicyVersion := reportedVersion s
  reportedSoftwareVersion := s.reported.softwareVersion
  health := 1
  usage := some usage
  activeConnections := activeConnections

/-! ## §2 The response. -/

/-- The desired state `sync_once` builds from a response with policy `p`. -/
def desiredOf (s : StateStore) (hb : HeartbeatResponse) (p : Policy) : DesiredState where
  seq := max hb.desiredSeq 1
  policy := { p with
    defaultUpstream :=
      if p.defaultUpstream = "" then s.lastGoodPolicy.defaultUpstream else p.defaultUpstream }
  softwareVersion := hb.desiredSoftwareVersion

/-- The rest of `sync_once` once the response is there: whether a policy was applied. -/
def handleResponse (hb : HeartbeatResponse) : StoreM Bool := do
  if hb.hasPolicy then
    match hb.policy with
    | some p =>
        let s ← get
        processMessage (desiredOf s hb p)
    | none => return false
  else
    return false

/-- The same, on the store of a running agent. -/
def handle (s : StateStore) (hb : HeartbeatResponse) :
    Prog (Option StateStore) StoreReq (Except AgentError Bool × Option StateStore) := do
  let (r, s') ← (handleResponse hb).run.run s
  return (r.mapError .state, some s')

/-- Opening the agent (`EdgeAgent::new`). -/
def openAgent (file : Option (Contents Json)) :
    Prog (Option StateStore) StoreReq (Except AgentError Unit × Option StateStore) := do
  match ← openStore file with
  | .ok s => return (.ok (), some s)
  | .error e => return (.error (.state e), none)

/-! ## §3 What it can do. -/

theorem handleResponse_follows {s : StateStore} {hb : HeartbeatResponse} {p : Policy} {disk : StoreDisk}
    {prev : Option StateStore} (hhas : hb.hasPolicy = true) (hp : hb.policy = some p) :
    MethodFollows storeDevice (fun _ => True)
      (fun _ disk' _ _ => FileAfter s (desiredOf s hb p) disk.file disk'.file) (handleResponse hb)
      (fun _ disk' r => Handled s (desiredOf s hb p) disk.file r.1 r.2 disk'.file) s prev disk := by
  unfold handleResponse
  rw [if_pos hhas, hp]
  exact method_get processMessage_follows

/-- The events and the world of a response handled under a list of faults. -/
def handleRun (s : StateStore) (hb : HeartbeatResponse) (faults : List (Fault StoreTear))
    (disk : StoreDisk) :
    List (Event (Option StateStore) StoreReq StoreTear StoreDisk (Except AgentError Bool)) ×
      World (Option StateStore) StoreDisk :=
  (handle s hb).exec storeDevice none (some s) faults disk

/-- What `sync_once` returned, if the process lived to return. -/
def handleReplies (s : StateStore) (hb : HeartbeatResponse) (faults : List (Fault StoreTear))
    (disk : StoreDisk) : List (Except AgentError Bool) :=
  (handleRun s hb faults disk).1.filterMap Event.reply

/-- **Everything the handling of a response with a policy can do.** -/
theorem handle_outcome {s : StateStore} {hb : HeartbeatResponse} {p : Policy}
    (hhas : hb.hasPolicy = true) (hp : hb.policy = some p) (faults : List (Fault StoreTear))
    (disk : StoreDisk) :
    ((handleRun s hb faults disk).2.mem = none ∧ handleReplies s hb faults disk = [] ∧
        FileAfter s (desiredOf s hb p) disk.file (handleRun s hb faults disk).2.disk.file) ∨
      ∃ r s', (handleRun s hb faults disk).2.mem = some s' ∧
        handleReplies s hb faults disk = [r.mapError .state] ∧
        Handled s (desiredOf s hb p) disk.file r s' (handleRun s hb faults disk).2.disk.file := by
  have hfollows : (handle s hb).Follows storeDevice (fun _ => True)
      (fun _ disk' _ _ => FileAfter s (desiredOf s hb p) disk.file disk'.file)
      (fun _ disk' b => ∃ r s', b = (r.mapError .state, some s') ∧
        Handled s (desiredOf s hb p) disk.file r s' disk'.file) (some s) disk := by
    unfold handle
    rw [Prog.follows_bind]
    refine (handleResponse_follows hhas hp).mono ?_
    intro _ disk' r hr
    exact ⟨r.1, r.2, rfl, hr⟩
  unfold handleReplies handleRun
  rcases hfollows.outcome none faults with ⟨_, d₁, _, q, t, hfile, hworld, hreplies⟩ |
      ⟨_, d₁, b, m', ⟨r, s', hb', hhandled⟩, hworld, hreplies⟩
  · refine .inl ⟨by rw [hworld], hreplies, ?_⟩
    rw [hworld]
    show FileAfter _ _ _ (q.tear t d₁).file
    rw [tear_file]
    exact hfile
  · cases hb'
    refine .inr ⟨r, s', by rw [hworld], hreplies, ?_⟩
    rw [hworld]
    exact hhandled

/-- A response without a policy is answered without a look at the store ... -/
theorem handle_no_policy {s : StateStore} {hb : HeartbeatResponse} (h : hb.hasPolicy = true → hb.policy = none) :
    handle s hb = .done (.ok false, some s) := by
  unfold handle handleResponse
  by_cases hhas : hb.hasPolicy = true
  · rw [if_pos hhas, h hhas]
    rfl
  · rw [if_neg hhas]
    rfl

/-- ... and leaves it. -/
theorem handleRun_no_policy {s : StateStore} {hb : HeartbeatResponse}
    (h : hb.hasPolicy = true → hb.policy = none) (faults : List (Fault StoreTear)) (disk : StoreDisk) :
    (handleRun s hb faults disk).2 = ⟨some s, disk⟩ := by
  unfold handleRun
  rw [handle_no_policy h]
  rfl

/-- The world of a reopened agent. -/
def openRun (faults : List (Fault StoreTear)) (disk : StoreDisk) : World (Option StateStore) StoreDisk :=
  ((openAgent disk.file).exec storeDevice none none faults disk).2

/-- **Everything opening the agent can do**: no state file gives a fresh store, a file gives the store
it holds, and an error gives no agent. The file stays. -/
theorem open_outcome (faults : List (Fault StoreTear)) (disk : StoreDisk) :
    (openRun faults disk).disk.file = disk.file ∧
      ∀ s, (openRun faults disk).mem = some s →
        (disk.file = none ∧ s = .fresh) ∨
          ∃ contents, disk.file = some contents ∧ decodeStore contents = .ok s := by
  have hfollows : (openAgent disk.file).Follows storeDevice (fun _ => True)
      (fun _ disk' _ _ => disk'.file = disk.file)
      (fun _ disk' b => disk'.file = disk.file ∧ ∀ s, b.2 = some s →
        (disk.file = none ∧ s = .fresh) ∨
          ∃ contents, disk.file = some contents ∧ decodeStore contents = .ok s)
      none disk := by
    unfold openAgent
    rw [Prog.follows_bind]
    unfold openStore
    cases hfile : disk.file with
    | none =>
        refine ⟨hfile, ?_⟩
        intro s hs
        cases hs
        exact .inl ⟨rfl, rfl⟩
    | some contents =>
        refine ⟨hfile, ?_, fun _ t => ⟨(tear_file _ t disk).trans hfile, fun _ h => (by cases h)⟩⟩
        show Prog.Follows storeDevice _ _ _ (Prog.done (decodeStore contents)) none disk
        cases hdec : decodeStore contents with
        | error e => exact ⟨hfile, fun _ h => (by cases h)⟩
        | ok s =>
            refine ⟨hfile, ?_⟩
            intro s' hs
            cases hs
            exact .inr ⟨contents, rfl, hdec⟩
  unfold openRun
  rcases hfollows.outcome none faults with ⟨_, d₁, _, q, t, hfile, hworld, _⟩ |
      ⟨_, d₁, b, m', ⟨hfile, hmem⟩, hworld, _⟩
  · rw [hworld]
    exact ⟨(tear_file q t d₁).trans hfile, fun _ h => (by cases h)⟩
  · rw [hworld]
    exact ⟨hfile, hmem⟩

end Edgewarden.Agent
