/-
# Edgewarden.Fleet.System — one control plane and any number of agents.

A step is one thing that happens anywhere in the fleet: a registry operation, a restart of the control
plane, one RPC of one agent, the handling of a response, a crash, a reopening. Steps of different
parties interleave freely, so between the heartbeat of an agent and its handling of the answer the
registry may have moved on or been restarted.

* The control plane persists. A mutation of the registry and the snapshot it writes are one step
  (`ControlPlane.step`), and the write does not fail: mutations that overlap are the subject of
  `Edgewarden.Registry.Concurrent`, a registry that comes back with less is that of `Edgewarden.Fleet.Setback`.
* A restart whose `load` fails leaves no control plane; calls then fail.
* An RPC fails before it reaches the server (`fail`) or loses its answer on the way back (`lost`).
* Faults of the state file are in the list that comes with `finish` and `reopen`.
-/
import Edgewarden.Agent.Sync

namespace Edgewarden.Fleet

open Edgewarden.Agent Edgewarden.FaultIo Edgewarden.Registry Edgewarden.Serde Edgewarden.State

/-! ## §1 State. -/

/-- How far the `sync_once` of an agent has come. -/
inductive SyncPhase
  | idle
  | registered
  | answered (hb : HeartbeatResponse)
  deriving DecidableEq, Repr

/-- The store of the process, if it runs, the state file, and the call in progress. -/
structure AgentState where
  mem : Option StateStore
  disk : StoreDisk
  phase : SyncPhase

/-- A running agent that has never synced. -/
def AgentState.fresh : AgentState := ⟨some .fresh, ⟨none, none⟩, .idle⟩

structure FleetState (ι : Type) where
  registry : Option Inner
  file : Option Json
  agents : ι → AgentState

inductive FleetEvent (ι : Type)
  | operation (op : Op)
  | restart
  | register (a : ι) (now : UInt64) (lost : Bool)
  | heartbeat (a : ι) (now : UInt64) (usage : ResourceUsage) (active : UInt64) (lost : Bool)
  | fail (a : ι)
  | finish (a : ι) (faults : List (Fault StoreTear))
  | crash (a : ι)
  | reopen (a : ι) (faults : List (Fault StoreTear))

/-! ## §2 Steps. -/

section

variable {ι : Type} [DecidableEq ι]

def FleetState.setAgent (w : FleetState ι) (a : ι) (s : AgentState) : FleetState ι :=
  { w with agents := Function.update w.agents a s }

def FleetState.setPhase (w : FleetState ι) (a : ι) (phase : SyncPhase) : FleetState ι :=
  w.setAgent a { w.agents a with phase := phase }

omit [DecidableEq ι] in
/-- One operation of a running control plane, with its snapshot. -/
def FleetState.operate (w : FleetState ι) (op : Op) : FleetState ι :=
  match w.registry with
  | none => w
  | some r =>
      { w with
        registry := some ((ControlPlane.mk r w.file).step op).inner
        file := ((ControlPlane.mk r w.file).step op).file }

/-- The `register` RPC of an agent. -/
def FleetState.register (w : FleetState ι) (cfg : AgentConfig) (a : ι) (now : UInt64) (lost : Bool) :
    FleetState ι :=
  match (w.agents a).mem, (w.agents a).phase with
  | some s, .idle =>
      (w.operate (.register now (registerRequest cfg s).args)).setPhase a
        (if w.registry.isSome && !lost then .registered else .idle)
  | _, _ => w

/-- Where the call stands after a heartbeat: an error or a lost answer ends it. -/
def heartbeatPhase : Except Status HeartbeatResponse → Bool → SyncPhase
  | .ok hb, false => .answered hb
  | .ok _, true => .idle
  | .error _, _ => .idle

theorem heartbeatPhase_answered {answer : Except Status HeartbeatResponse} {lost : Bool}
    {hb : HeartbeatResponse} (h : heartbeatPhase answer lost = .answered hb) : answer = .ok hb := by
  cases answer with
  | error e => cases h
  | ok hb' =>
      cases lost with
      | true => cases h
      | false => rw [SyncPhase.answered.inj h]

/-- The `heartbeat` RPC of an agent that has registered. -/
def FleetState.heartbeat (w : FleetState ι) (cfg : AgentConfig) (a : ι) (now : UInt64)
    (usage : ResourceUsage) (active : UInt64) (lost : Bool) : FleetState ι :=
  match (w.agents a).mem, (w.agents a).phase, w.registry with
  | some s, .registered, some r =>
      let req := heartbeatRequest cfg s usage active
      { w with registry := some (serveHeartbeat r now req).2 }.setPhase a
        (heartbeatPhase (serveHeartbeat r now req).1 lost)
  | _, _, _ => w

/-- The end of a `sync_once` that got its response. -/
def FleetState.finish (w : FleetState ι) (a : ι) (faults : List (Fault StoreTear)) : FleetState ι :=
  match (w.agents a).mem, (w.agents a).phase with
  | some s, .answered hb =>
      let world := (handleRun s hb faults (w.agents a).disk).2
      w.setAgent a ⟨world.mem, world.disk, .idle⟩
  | _, _ => w

omit [DecidableEq ι] in
/-- What that `sync_once` returns, if the process lives to return. -/
def FleetState.replies (w : FleetState ι) (a : ι) (faults : List (Fault StoreTear)) :
    List (Except AgentError Bool) :=
  match (w.agents a).mem, (w.agents a).phase with
  | some s, .answered hb => handleReplies s hb faults (w.agents a).disk
  | _, _ => []

def FleetState.reopen (w : FleetState ι) (a : ι) (faults : List (Fault StoreTear)) : FleetState ι :=
  match (w.agents a).mem with
  | some _ => w
  | none =>
      let world := openRun faults (w.agents a).disk
      w.setAgent a ⟨world.mem, world.disk, .idle⟩

def FleetState.step (cfg : ι → AgentConfig) (w : FleetState ι) : FleetEvent ι → FleetState ι
  | .operation op => w.operate op
  | .restart => { w with registry := load w.file }
  | .register a now lost => w.register (cfg a) a now lost
  | .heartbeat a now usage active lost => w.heartbeat (cfg a) a now usage active lost
  | .fail a => w.setPhase a .idle
  | .finish a faults => w.finish a faults
  | .crash a => w.setAgent a ⟨none, (w.agents a).disk, .idle⟩
  | .reopen a faults => w.reopen a faults

/-- An empty registry without a file, and agents that have never synced. -/
def FleetState.initial (ι : Type) : FleetState ι := ⟨some .empty, none, fun _ => .fresh⟩

/-- The fleet after a sequence of events. -/
def FleetState.after (cfg : ι → AgentConfig) (events : List (FleetEvent ι)) : FleetState ι :=
  events.foldl (FleetState.step cfg) (FleetState.initial ι)

theorem setAgent_same (w : FleetState ι) (a : ι) (s : AgentState) : (w.setAgent a s).agents a = s := by
  show Function.update w.agents a s a = s
  rw [Function.update_self]

theorem setAgent_other (w : FleetState ι) {a b : ι} (s : AgentState) (h : b ≠ a) :
    (w.setAgent a s).agents b = w.agents b := by
  show Function.update w.agents a s b = w.agents b
  rw [Function.update_of_ne h]

theorem after_snoc (cfg : ι → AgentConfig) (events : List (FleetEvent ι)) (e : FleetEvent ι) :
    FleetState.after cfg (events ++ [e]) = (FleetState.after cfg events).step cfg e := by
  unfold FleetState.after
  rw [List.foldl_append]
  rfl

end

end Edgewarden.Fleet
