/-
# Edgewarden.Agent.Run — the loop of `EdgeAgent::run`: heartbeats, backoff, and what the metrics say of them.

The loop waits for the heartbeat interval, calls `sync_once`, and after an error waits for `next_delay` as
well. Both waits are a `select!` with the shutdown signal; a call of `sync_once` is not interrupted.

* §1 is the loop as a machine, one event for each thing it waits for. `sync_once` is `Cycle.syncOnce`, with
  the metrics it sets.
* `HeartbeatLoop.moves` says everything an event can do; §3 to §5 are case analyses over it.
* `run_continues`: the loop ends by the signal or with the process, never by an error, and until then it is an
  agent of `Agent.LastGood`: the store has a received policy to fall back on.
* `run_backs_off`: the delays double with the failures in a row, up to the cap. Unlike `run_watch`, which
  resets its backoff at every connect.
* `run_gauges`: what the three metrics count. The policy version is only set by a policy that was applied in
  this process, and not where `mark_policy_applied` fails.
-/
import Edgewarden.Agent.OnDisk
import Edgewarden.Agent.Reconnect

namespace Edgewarden.Agent

open Edgewarden.Calls Edgewarden.FaultIo Edgewarden.Protocol Edgewarden.Registry Edgewarden.Serde Edgewarden.State

/-! ## §1 The loop. -/

/-- The metrics of `EdgeMetrics` that the agent sets. -/
structure AgentMetrics where
  controlPlaneConnected : Int64
  reconnectTotal : UInt64
  policyVersion : Int64
  deriving DecidableEq

/-- The metrics of a new process. -/
def AgentMetrics.zero : AgentMetrics := ⟨0, 0, 0⟩

def AgentMetrics.noteDisconnected (m : AgentMetrics) : AgentMetrics :=
  { m with controlPlaneConnected := 0, reconnectTotal := m.reconnectTotal + 1 }

/-- What a call of `sync_once` that returns `reply` has set on the way: the connection as soon as there is a
response, the version before `return Ok(true)`. -/
def Cycle.metered (c : Cycle) (cfg : AgentConfig) (s : StateStore) (reply : Except AgentError Bool)
    (m : AgentMetrics) : AgentMetrics :=
  match c.exchange cfg s with
  | .error _ => m
  | .ok hb =>
      let m := { m with controlPlaneConnected := 1 }
      match reply, hb.policy with
      | .ok true, some p => { m with policyVersion := p.version.toInt64 }
      | _, _ => m

/-- Where the loop is. -/
inductive RunPhase
  /-- In the `select!` with the heartbeat interval. -/
  | waiting
  /-- Inside `sync_once`. -/
  | syncing
  /-- In the `select!` with the delay of the backoff. -/
  | backingOff (d : Duration)
  | returned
  /-- The process died in a write of the state file. -/
  | died

structure HeartbeatLoop where
  phase : RunPhase
  world : AgentWorld
  backoff : Backoff
  metrics : AgentMetrics

inductive RunEvent
  /-- `shutdown.changed()`. -/
  | shutdown
  /-- The sleep of a `select!` is over. -/
  | elapsed
  /-- A call of `sync_once`, and the draw of the delay if it fails. -/
  | sync (c : Cycle) (genRange : Backoff.GenRange)

/-- `sync_once(0)`. -/
def Cycle.idle (c : Cycle) : Cycle := { c with activeConnections := 0 }

/-- The loop after `sync_once`, by what it returned. -/
def HeartbeatLoop.settle (l : HeartbeatLoop) (cfg : AgentConfig) (c : Cycle) (s : StateStore)
    (genRange : Backoff.GenRange) (world : AgentWorld) : Option (Except AgentError Bool) → HeartbeatLoop
  | none => { l with phase := .died, world := world }
  | some (.ok b) => ⟨.waiting, world, l.backoff.reset, c.metered cfg s (.ok b) l.metrics⟩
  | some (.error e) =>
      let (d, backoff) := l.backoff.nextDelay genRange
      ⟨.backingOff d, world, backoff, (c.metered cfg s (.error e) l.metrics).noteDisconnected⟩

/-- A call of `sync_once` that the loop made: on which store, and what it returned if it did. -/
structure SyncCall where
  cycle : Cycle
  store : StateStore
  reply : Option (Except AgentError Bool)

/-- One event. What does not happen in a phase does nothing. -/
def HeartbeatLoop.step (cfg : AgentConfig) (l : HeartbeatLoop) : RunEvent → Option SyncCall × HeartbeatLoop
  | .shutdown =>
      match l.phase with
      | .waiting => (none, { l with phase := .returned })
      | .backingOff _ => (none, { l with phase := .returned })
      | _ => (none, l)
  | .elapsed =>
      match l.phase with
      | .waiting => (none, { l with phase := .syncing })
      | .backingOff _ => (none, { l with phase := .waiting })
      | _ => (none, l)
  | .sync c genRange =>
      match l.phase, l.world.mem with
      | .syncing, some s =>
          let reply := (c.idle.replies cfg s l.world.disk).head?
          (some ⟨c.idle, s, reply⟩, l.settle cfg c.idle s genRange (c.idle.run cfg s l.world.disk).2 reply)
      | _, _ => (none, l)

/-- `run` of an agent. -/
def heartbeatLoop (cfg : AgentConfig) (w : AgentWorld) : Machine HeartbeatLoop RunEvent (Option SyncCall) where
  init := ⟨.waiting, w, watchBackoff, .zero⟩
  step := HeartbeatLoop.step cfg

/-- The calls of `sync_once` of a run. -/
def syncCalls (cfg : AgentConfig) (w : AgentWorld) (events : List RunEvent) : List SyncCall :=
  ((heartbeatLoop cfg w).answers events).filterMap id

/-! ## §2 Everything an event can do. -/

section Cycle

variable {c : Cycle} {cfg : AgentConfig} {s : StateStore}

theorem Cycle.replies_no_policy {hb : HeartbeatResponse} (hex : c.exchange cfg s = .ok hb)
    (hmsg : c.message cfg s = none) (disk : StoreDisk) : c.replies cfg s disk = [.ok false] := by
  have hnone : hb.hasPolicy = true → hb.policy = none := by
    intro hhas
    unfold Cycle.message at hmsg
    simp only [hex, if_pos hhas] at hmsg
    exact Option.map_eq_none_iff.mp hmsg
  unfold Cycle.replies
  rw [Cycle.run_ok hex]
  unfold handleRun
  rw [handle_no_policy hnone]
  rfl

/-- A message is made of the policy of the response. -/
theorem Cycle.message_version {d : DesiredState} (hmsg : c.message cfg s = some d) :
    ∃ hb p, c.exchange cfg s = .ok hb ∧ hb.policy = some p ∧ d.policy.version = p.version := by
  unfold Cycle.message at hmsg
  cases hex : c.exchange cfg s with
  | error e => simp [hex] at hmsg
  | ok hb =>
      by_cases hhas : hb.hasPolicy = true
      · simp only [hex, if_pos hhas] at hmsg
        obtain ⟨p, hp, rfl⟩ := Option.map_eq_some_iff.mp hmsg
        exact ⟨hb, p, rfl, hp, rfl⟩
      · simp [hex, if_neg hhas] at hmsg

/-- The report stays. -/
def SameVersion (s s' : StateStore) : Prop := s'.reported.policyVersion = s.reported.policyVersion

/-- **Everything a cycle can return**, with what it does to the version reported and to the metrics. -/
inductive Cycle.Answers (c : Cycle) (cfg : AgentConfig) (s : StateStore) (disk : StoreDisk) :
    Option (Except AgentError Bool) → Option StateStore → Prop
  | unreached {e : AgentError} : c.exchange cfg s = .error e → Answers c cfg s disk (some (.error e)) (some s)
  | died : Answers c cfg s disk none none
  | kept {hb : HeartbeatResponse} {s' : StateStore} : c.exchange cfg s = .ok hb → SameVersion s s' →
      Answers c cfg s disk (some (.ok false)) (some s')
  | applied {hb : HeartbeatResponse} {p : Policy} {s' : StateStore} : c.exchange cfg s = .ok hb →
      hb.policy = some p → s'.reported.policyVersion = p.version →
      Answers c cfg s disk (some (.ok true)) (some s')
  | unsaved {hb : HeartbeatResponse} {e : StateError} {s' : StateStore} : c.exchange cfg s = .ok hb →
      SameVersion s s' ∨ MarkFails cfg ⟨some s, disk⟩ (.sync c) →
      Answers c cfg s disk (some (.error (.state e))) (some s')

theorem track_sameVersion (s : StateStore) (d : DesiredState) : SameVersion s (s.track d) := by
  unfold SameVersion
  rw [s.track_reported]

theorem Cycle.answers (c : Cycle) (cfg : AgentConfig) (s : StateStore) (disk : StoreDisk) :
    c.Answers cfg s disk (c.replies cfg s disk).head? (c.run cfg s disk).2.mem := by
  cases hmsg : c.message cfg s with
  | none =>
      cases hex : c.exchange cfg s with
      | error e =>
          have hreplies : c.replies cfg s disk = [.error e] := by
            unfold Cycle.replies
            rw [Cycle.run_error hex]
            rfl
          rw [hreplies, Cycle.run_no_message hmsg]
          exact .unreached hex
      | ok hb =>
          rw [Cycle.replies_no_policy hex hmsg, Cycle.run_no_message hmsg]
          exact .kept hex rfl
  | some d =>
      obtain ⟨hb, p, hex, hp, hversion⟩ := Cycle.message_version hmsg
      rcases Cycle.run_message hmsg disk with ⟨hmem, hreplies⟩ | ⟨r, s', hmem, hreplies, hreturns⟩
      · rw [hmem, hreplies]
        exact .died
      · rw [hmem, hreplies]
        generalize (c.run cfg s disk).2.disk.file = file at hreturns
        cases hreturns with
        | ingestFailed _ => exact .unsaved hex (.inl (track_sameVersion s d))
        | kept _ _ => exact .kept hex (track_sameVersion s d)
        | markFailed hingest hdiff hmark =>
            exact .unsaved hex (.inr ⟨c, s, d, rfl, rfl, hmsg, ⟨_, hdiff⟩, hingest, _, hmark⟩)
        | applied _ hdiff _ =>
            refine .applied hex hp ?_
            obtain ⟨_, hlt, hne⟩ := diff_eq_applyPolicy_iff.mp hdiff
            have hpair := StateStore.process_reported s d
            rw [if_pos ⟨hlt, hne⟩] at hpair
            exact (Prod.mk.inj hpair).1.trans hversion

end Cycle

/-- **Everything an event can do to the loop.** -/
inductive HeartbeatLoop.Moves (cfg : AgentConfig) (l : HeartbeatLoop) :
    RunEvent → Option SyncCall → HeartbeatLoop → Prop
  | nothing {e : RunEvent} : Moves cfg l e none l
  | returns : l.phase ≠ .died → Moves cfg l .shutdown none { l with phase := .returned }
  | goesOn {phase : RunPhase} : l.phase ≠ .died → phase = .waiting ∨ phase = .syncing →
      Moves cfg l .elapsed none { l with phase := phase }
  | syncs (c : Cycle) (genRange : Backoff.GenRange) (s : StateStore) (reply : Option (Except AgentError Bool))
      (world : AgentWorld) : l.phase = .syncing → l.world.mem = some s →
      agentStep cfg l.world (.sync c.idle) = world → c.idle.Answers cfg s l.world.disk reply world.mem →
      Moves cfg l (.sync c genRange) (some ⟨c.idle, s, reply⟩) (l.settle cfg c.idle s genRange world reply)

theorem HeartbeatLoop.moves (cfg : AgentConfig) (l : HeartbeatLoop) (e : RunEvent) :
    l.Moves cfg e (l.step cfg e).1 (l.step cfg e).2 := by
  cases e with
  | shutdown =>
      unfold HeartbeatLoop.step
      cases hphase : l.phase with
      | waiting => exact .returns (by simp [hphase])
      | backingOff d => exact .returns (by simp [hphase])
      | syncing => exact .nothing
      | returned => exact .nothing
      | died => exact .nothing
  | elapsed =>
      unfold HeartbeatLoop.step
      cases hphase : l.phase with
      | waiting => exact .goesOn (by simp [hphase]) (.inr rfl)
      | backingOff d => exact .goesOn (by simp [hphase]) (.inl rfl)
      | syncing => exact .nothing
      | returned => exact .nothing
      | died => exact .nothing
  | sync c genRange =>
      unfold HeartbeatLoop.step
      cases hphase : l.phase with
      | syncing =>
          cases hmem : l.world.mem with
          | none => exact .nothing
          | some s =>
              refine .syncs c genRange s _ _ hphase hmem ?_ (c.idle.answers cfg s l.world.disk)
              simp only [agentStep, hmem]
      | waiting => exact .nothing
      | backingOff d => exact .nothing
      | returned => exact .nothing
      | died => exact .nothing

@[simp] theorem HeartbeatLoop.settle_world (l : HeartbeatLoop) (cfg : AgentConfig) (c : Cycle) (s : StateStore)
    (genRange : Backoff.GenRange) (world : AgentWorld) (reply : Option (Except AgentError Bool)) :
    (l.settle cfg c s genRange world reply).world = world := by
  rcases reply with _ | _ | _ <;> rfl

section Runs

variable {cfg : AgentConfig} {w : AgentWorld}

/-- **Invariants of runs**: of the events, the calls of `sync_once` and the loop. -/
theorem run_history {I : List RunEvent → List SyncCall → HeartbeatLoop → Prop}
    (hinit : I [] [] ⟨.waiting, w, watchBackoff, .zero⟩)
    (hstep : ∀ events calls l e a l', l.Moves cfg e a l' → I events calls l →
      I (events ++ [e]) (calls ++ a.toList) l') (events : List RunEvent) :
    I events (syncCalls cfg w events) ((heartbeatLoop cfg w).after events) := by
  refine (heartbeatLoop cfg w).history (I := fun events answers l => I events (answers.filterMap id) l)
    hinit ?_ events
  intro events answers l e h
  have hnext := hstep events _ l e _ _ (l.moves cfg e) h
  rw [List.filterMap_append]
  show I _ (_ ++ List.filterMap id [(l.step cfg e).1]) (l.step cfg e).2
  cases ha : (l.step cfg e).1 with
  | none => simpa [ha] using hnext
  | some call => simpa [ha] using hnext

/-! ## §3 The loop is an agent, and goes on. -/

/-- The agent that `run` drives is the one of `Agent.LastGood`, with the calls of the run as its cycles. -/
theorem run_agent (cfg : AgentConfig) (before : List AgentEvent) (events : List RunEvent) :
    ((heartbeatLoop cfg (agentAfter cfg before)).after events).world =
      agentAfter cfg (before ++ (syncCalls cfg (agentAfter cfg before) events).map fun call => .sync call.cycle) := by
  refine run_history (I := fun _ calls l =>
    l.world = agentAfter cfg (before ++ calls.map fun call => .sync call.cycle)) ?_ ?_ events
  · simp
  · intro events calls l e a l' hmoves h
    rw [List.map_append, ← List.append_assoc]
    cases hmoves with
    | nothing => simpa using h
    | returns _ => simpa using h
    | goesOn _ _ => simpa using h
    | syncs c genRange s reply world _ _ hstep _ =>
        rw [HeartbeatLoop.settle_world]
        show world = agentAfter cfg (_ ++ [.sync c.idle])
        rw [agentAfter_snoc, ← h, hstep]

/-- How a loop has come to its end, if it has. -/
structure Ended (events : List RunEvent) (l : HeartbeatLoop) : Prop where
  returned : l.phase = .returned → .shutdown ∈ events
  died : l.phase = .died ↔ l.world.mem = none

/-- A loop that has returned was told to, and one that has died has lost its store. -/
theorem run_ended (hmem : w.mem ≠ none) (events : List RunEvent) :
    Ended events ((heartbeatLoop cfg w).after events) := by
  refine run_history (I := fun events _ l => Ended events l) ?_ ?_ events
  · exact ⟨fun h => (by cases h), by simp [hmem]⟩
  · intro events calls l e a l' hmoves h
    cases hmoves with
    | nothing => exact ⟨fun hphase => List.mem_append_left _ (h.returned hphase), h.died⟩
    | returns hlive => exact ⟨fun _ => by simp, by simpa [hlive] using h.died⟩
    | goesOn hlive hphase =>
        refine ⟨?_, ?_⟩
        · rcases hphase with rfl | rfl <;> intro hreturned <;> cases hreturned
        · rcases hphase with rfl | rfl <;> simpa [hlive] using h.died
    | syncs c genRange s reply world _ _ _ hanswers =>
        refine ⟨?_, ?_⟩
        · rcases reply with _ | _ | _ <;> intro hreturned <;> cases hreturned
        · rw [HeartbeatLoop.settle_world]
          generalize world.mem = mem at hanswers ⊢
          cases hanswers <;> simp [HeartbeatLoop.settle]

/-- **Partition only degrades.** Whatever an agent has been through before its process started and whatever
its calls of `sync_once` return: the loop ends by the shutdown signal or by the death of the process, and
until the latter it holds a store that reports the version of its last-known-good policy, which is the compiled
default or was received. -/
theorem run_continues (cfg : AgentConfig) (before : List AgentEvent)
    (hmem : (agentAfter cfg before).mem ≠ none) (events : List RunEvent) :
    let l := (heartbeatLoop cfg (agentAfter cfg before)).after events
    let cycles := (syncCalls cfg (agentAfter cfg before) events).map fun call => AgentEvent.sync call.cycle
    (l.phase = .returned → .shutdown ∈ events) ∧
      (l.phase ≠ .died → ∃ s, l.world.mem = some s ∧ LastGood cfg (before ++ cycles) s) := by
  intro l cycles
  have hended : Ended events l := run_ended hmem events
  refine ⟨hended.returned, ?_⟩
  intro hlive
  obtain ⟨s, hs⟩ := Option.ne_none_iff_exists'.mp (mt hended.died.mpr hlive)
  refine ⟨s, hs, (lastGood_after cfg (before ++ cycles)).mem s ?_⟩
  rw [← run_agent]
  exact hs

/-- A cycle that finds no control plane. -/
def unreachable : Cycle where
  link := ⟨.error .transport, fun _ => .error .transport, fun _ => .error .transport⟩
  usage := ⟨F64.zero, 0, 0, 0⟩
  activeConnections := 0
  faults := []

/-- An agent that has version 7, crashes, finds no control plane after it was opened again, and then version 8. -/
theorem run_continues_reopened :
    let before : List AgentEvent := [.sync (carrying 7 1), .crash, .reopen []]
    let l := (heartbeatLoop anEdge (agentAfter anEdge before)).after
      [.elapsed, .sync unreachable fun _ => 0, .elapsed, .elapsed, .sync (carrying 8 2) fun _ => 0]
    l.world.mem.map (fun s => s.reported.policyVersion) = some 8 ∧
      ∃ s, l.world.mem = some s ∧ LastGood anEdge (before ++ [.sync unreachable, .sync (carrying 8 2)]) s := by
  intro before l
  have hopened : (agentAfter anEdge before).mem ≠ none := Option.some_ne_none _
  have hwaits : l.phase = .waiting := rfl
  refine ⟨by decide +kernel, (run_continues anEdge before hopened _).2 ?_⟩
  intro hdied
  cases hwaits.symm.trans hdied

/-! ## §4 Backing off. -/

/-- One call more. -/
def failuresAfter (k : Nat) : Option (Except AgentError Bool) → Nat
  | some (.ok _) => 0
  | some (.error _) => k + 1
  | none => k

/-- How many calls in a row have failed by now. -/
def failures (calls : List SyncCall) : Nat := calls.foldl (fun k call => failuresAfter k call.reply) 0

/-- The longest delay after `k` failures. -/
def longest (k : Nat) : Nat := min 30000 (200 * 2 ^ (k - 1))

/-- The backoff of the loop, and the delay it is in, after `k` failures in a row. -/
structure BackedOff (k : Nat) (l : HeartbeatLoop) : Prop where
  base : l.backoff.base = .fromMillis 200
  cap : l.backoff.cap = .fromSecs 30
  attempts : l.backoff.attempts.toNat = min k (2 ^ 32 - 1)
  delay : ∀ d, l.phase = .backingOff d → 0 < k ∧ longest k / 2 ≤ d.asMillis ∧ d.asMillis ≤ longest k

variable {k : Nat} {l : HeartbeatLoop}

/-- The counter saturates long after the delay has reached its cap. -/
theorem BackedOff.envelope (h : BackedOff k l) :
    envelope l.backoff.base l.backoff.cap l.backoff.attempts.toNat = longest (k + 1) := by
  rw [h.base, h.cap, h.attempts, longest, Nat.add_sub_cancel, ← envelope_watch k]
  unfold Protocol.envelope
  congr 3
  omega

theorem BackedOff.fits (h : BackedOff k l) : l.backoff.cap.asMillis ≤ 2 ^ 64 - 1 := by
  rw [h.cap]
  decide +kernel

/-- The draw of a delay after one more failure. -/
theorem BackedOff.nextDelay (h : BackedOff k l) (genRange : Backoff.GenRange) :
    (l.backoff.nextDelay genRange).1.asMillis =
      min (longest (k + 1) / 2 + (genRange (max (longest (k + 1)) 1)).val / 2) (longest (k + 1)) := by
  have hdelay := nextDelay_asMillis h.fits genRange
  rw [← h.envelope]
  exact hdelay

theorem BackedOff.delays (h : BackedOff k l) (genRange : Backoff.GenRange) :
    longest (k + 1) / 2 ≤ (l.backoff.nextDelay genRange).1.asMillis ∧
      (l.backoff.nextDelay genRange).1.asMillis ≤ longest (k + 1) := by
  rw [h.nextDelay]
  exact ⟨Nat.le_min.mpr ⟨Nat.le_add_right _ _, Nat.div_le_self _ _⟩, Nat.min_le_right _ _⟩

theorem run_backedOff (cfg : AgentConfig) (w : AgentWorld) (events : List RunEvent) :
    BackedOff (failures (syncCalls cfg w events)) ((heartbeatLoop cfg w).after events) := by
  refine run_history (I := fun _ calls l => BackedOff (failures calls) l) ?_ ?_ events
  · exact ⟨rfl, rfl, rfl, fun d hd => (by cases hd)⟩
  · intro events calls l e a l' hmoves h
    cases hmoves with
    | nothing => simpa using h
    | returns _ =>
        refine ⟨h.base, h.cap, by simpa using h.attempts, ?_⟩
        intro d hd
        cases hd
    | goesOn _ hphase =>
        refine ⟨h.base, h.cap, by simpa using h.attempts, ?_⟩
        intro d hd
        rcases hphase with rfl | rfl <;> cases hd
    | syncs c genRange s reply world _ _ _ _ =>
        have hcount : failures (calls ++ (some ⟨c.idle, s, reply⟩ : Option SyncCall).toList) =
            failuresAfter (failures calls) reply := by
          simp [failures]
        rw [hcount]
        generalize failures calls = k at h ⊢
        rcases reply with _ | err | b
        · exact ⟨h.base, h.cap, h.attempts, fun d hd => (by cases hd)⟩
        · refine ⟨h.base, h.cap, saturatingAdd_one _ _ h.attempts, ?_⟩
          intro d hd
          obtain rfl : (l.backoff.nextDelay genRange).1 = d := RunPhase.backingOff.inj hd
          exact ⟨Nat.succ_pos k, h.delays genRange⟩
        · exact ⟨h.base, h.cap, rfl, fun d hd => (by cases hd)⟩

/-- The longest delay is even, so that every length down to its half is drawn. -/
theorem BackedOff.draws (h : BackedOff k l) {n : Nat} (hlower : longest (k + 1) / 2 ≤ n)
    (hupper : n ≤ longest (k + 1)) : ∃ genRange, (l.backoff.nextDelay genRange).1.asMillis = n := by
  have heven : longest (k + 1) % 2 = 0 := by
    unfold longest
    omega
  refine ⟨fun hi => Fin.ofNat (hi + 1) ((n - longest (k + 1) / 2) * 2), ?_⟩
  rw [h.nextDelay]
  show min (_ + (n - longest (k + 1) / 2) * 2 % (max (longest (k + 1)) 1 + 1) / 2) _ = n
  rw [Nat.mod_eq_of_lt (by omega)]
  omega

/-- **How the heartbeat loop backs off.** In every run, for every mix of outcomes: a delay after `k` failures in
a row is between the half and the whole of `min(30 s, 200 ms * 2^(k-1))`, for any `k`; and a loop whose next call of
`sync_once` fails, for want of a response or of a state file, can draw every whole number of milliseconds in that
range. -/
theorem run_backs_off (cfg : AgentConfig) (w : AgentWorld) (events : List RunEvent) :
    (∀ d, ((heartbeatLoop cfg w).after events).phase = .backingOff d →
        0 < failures (syncCalls cfg w events) ∧
          longest (failures (syncCalls cfg w events)) / 2 ≤ d.asMillis ∧
          d.asMillis ≤ longest (failures (syncCalls cfg w events))) ∧
      ∀ c s err n, ((heartbeatLoop cfg w).after events).phase = .syncing →
        ((heartbeatLoop cfg w).after events).world.mem = some s →
        c.idle.replies cfg s ((heartbeatLoop cfg w).after events).world.disk = [.error err] →
        longest (failures (syncCalls cfg w events) + 1) / 2 ≤ n →
        n ≤ longest (failures (syncCalls cfg w events) + 1) →
        ∃ genRange d, ((heartbeatLoop cfg w).after (events ++ [.sync c genRange])).phase = .backingOff d ∧
          d.asMillis = n := by
  have hbacked := run_backedOff cfg w events
  refine ⟨hbacked.delay, ?_⟩
  intro c s err n hphase hmem hreplies hlower hupper
  obtain ⟨genRange, hdraw⟩ := hbacked.draws hlower hupper
  refine ⟨genRange, _, ?_, hdraw⟩
  rw [Machine.after_snoc]
  show (HeartbeatLoop.step cfg _ (.sync c genRange)).2.phase = _
  simp only [HeartbeatLoop.step, hphase, hmem, hreplies, List.head?_cons]
  rfl

/-- The delay after the second failure. -/
theorem run_backs_off_twice :
    ∃ d, ((heartbeatLoop anEdge freshAgent).after [.elapsed, .sync unreachable fun _ => 0, .elapsed, .elapsed,
        .sync unreachable fun _ => 0]).phase = .backingOff d ∧ 200 ≤ d.asMillis ∧ d.asMillis ≤ 400 :=
  ⟨_, rfl, ((run_backs_off anEdge freshAgent [.elapsed, .sync unreachable fun _ => 0, .elapsed, .elapsed,
    .sync unreachable fun _ => 0]).1 _ rfl).2⟩

/-! ## §5 The metrics. -/

/-- The call failed. -/
def SyncCall.failed (call : SyncCall) : Bool :=
  match call.reply with
  | some (.error _) => true
  | _ => false

/-- Whether the last call succeeded; a process starts without a connection. -/
def connected (calls : List SyncCall) : Bool :=
  match calls.getLast? with
  | some ⟨_, _, some (.ok _)⟩ => true
  | _ => false

/-- The call applied a policy, and returned. -/
def SyncCall.applied (call : SyncCall) : Prop := call.reply = some (.ok true)

/-- The call applied a policy, but could not save it. -/
def SyncCall.lostMark (cfg : AgentConfig) (call : SyncCall) : Prop :=
  ∃ d, call.cycle.message cfg call.store = some d ∧ MarkFailed call.store d call.cycle.faults

/-- A policy was applied and not saved, and none was applied since. -/
def MarkLost (cfg : AgentConfig) (calls : List SyncCall) : Prop :=
  Outstanding (fun _ call => call.lostMark cfg) (fun _ call => call.applied) calls

/-- What the metrics of a process are, after these calls of `sync_once`. -/
structure Metered (cfg : AgentConfig) (w : AgentWorld) (calls : List SyncCall) (l : HeartbeatLoop) : Prop where
  reconnects : l.metrics.reconnectTotal = UInt64.ofNat (calls.countP SyncCall.failed)
  connected : l.phase ≠ .died → l.metrics.controlPlaneConnected = if connected calls then 1 else 0
  unset : (∀ call ∈ calls, ¬ call.applied) → l.metrics.policyVersion = 0
  shown : ∀ s, l.world.mem = some s → ¬ MarkLost cfg calls → (∃ call ∈ calls, call.applied) →
    l.metrics.policyVersion = s.reported.policyVersion.toInt64
  same : ∀ s s₀, w.mem = some s₀ → l.world.mem = some s → ¬ MarkLost cfg calls →
    (∀ call ∈ calls, ¬ call.applied) → SameVersion s₀ s

/-- A loop that moves without a call. -/
theorem Metered.moved {calls : List SyncCall} {phase : RunPhase} (h : Metered cfg w calls l)
    (hlive : l.phase ≠ .died) : Metered cfg w calls { l with phase := phase } :=
  ⟨h.reconnects, fun _ => h.connected hlive, h.unset, h.shown, h.same⟩

theorem markLost_snoc {calls : List SyncCall} {call : SyncCall} :
    MarkLost cfg (calls ++ [call]) ↔ call.lostMark cfg ∨ (MarkLost cfg calls ∧ ¬ call.applied) :=
  outstanding_snoc

/-- A call that does not return with a policy applied leaves the gauge; the version reported stays with it, or
is lost. -/
theorem Metered.unapplied {calls : List SyncCall} {call : SyncCall} {l' : HeartbeatLoop} {s : StateStore}
    (h : Metered cfg w calls l) (hmem : l.world.mem = some s) (happlied : ¬ call.applied)
    (hversion : l'.metrics.policyVersion = l.metrics.policyVersion)
    (hsame : ∀ s', l'.world.mem = some s' → SameVersion s s' ∨ call.lostMark cfg)
    (hreconnects : l'.metrics.reconnectTotal = UInt64.ofNat ((calls ++ [call]).countP SyncCall.failed))
    (hconnected : l'.phase ≠ .died →
      l'.metrics.controlPlaneConnected = if Agent.connected (calls ++ [call]) then 1 else 0) :
    Metered cfg w (calls ++ [call]) l' := by
  have hkept : ∀ s', l'.world.mem = some s' → ¬ MarkLost cfg (calls ++ [call]) →
      SameVersion s s' ∧ ¬ MarkLost cfg calls := by
    intro s' hs' hlost
    rw [markLost_snoc, not_or] at hlost
    exact ⟨(hsame s' hs').resolve_right hlost.1, fun h => hlost.2 ⟨h, happlied⟩⟩
  refine ⟨hreconnects, hconnected, ?_, ?_, ?_⟩
  · intro hnone
    rw [hversion]
    exact h.unset fun call' hcall' => hnone call' (List.mem_append_left _ hcall')
  · rintro s' hs' hlost ⟨call', hcall', happlied'⟩
    obtain ⟨hversion', hlost'⟩ := hkept s' hs' hlost
    have hbefore : call' ∈ calls := by
      rcases List.mem_append.mp hcall' with hcall' | hcall'
      · exact hcall'
      · exact absurd (List.mem_singleton.mp hcall' ▸ happlied') happlied
    rw [hversion, hversion']
    exact h.shown s hmem hlost' ⟨call', hbefore, happlied'⟩
  · intro s' s₀ hs₀ hs' hlost hnone
    obtain ⟨hversion', hlost'⟩ := hkept s' hs' hlost
    have hstart := h.same s s₀ hs₀ hmem hlost' fun call' hcall' => hnone call' (List.mem_append_left _ hcall')
    exact hversion'.trans hstart

theorem connected_snoc (calls : List SyncCall) (c : Cycle) (s : StateStore) (b : Bool) :
    Agent.connected (calls ++ [⟨c, s, some (.ok b)⟩]) = true := by
  simp [Agent.connected]

theorem connected_snoc_error (calls : List SyncCall) (c : Cycle) (s : StateStore) (e : AgentError) :
    Agent.connected (calls ++ [⟨c, s, some (.error e)⟩]) = false := by
  simp [Agent.connected]

/-- One failure more. -/
theorem failed_snoc {calls : List SyncCall} {m : AgentMetrics} {c : Cycle} {s : StateStore} {e : AgentError}
    (h : m.reconnectTotal = UInt64.ofNat (calls.countP SyncCall.failed)) :
    m.noteDisconnected.reconnectTotal =
      UInt64.ofNat ((calls ++ [(⟨c, s, some (.error e)⟩ : SyncCall)]).countP SyncCall.failed) := by
  show m.reconnectTotal + 1 = _
  rw [h, List.countP_append]
  simp [SyncCall.failed]

theorem Metered.synced {calls : List SyncCall} {c : Cycle} {genRange : Backoff.GenRange} {s : StateStore}
    {reply : Option (Except AgentError Bool)} {world : AgentWorld} (h : Metered cfg w calls l)
    (hmem : l.world.mem = some s) (hanswers : c.Answers cfg s l.world.disk reply world.mem) :
    Metered cfg w (calls ++ [⟨c, s, reply⟩]) (l.settle cfg c s genRange world reply) := by
  have hreconnects := h.reconnects
  generalize hworld : world.mem = mem at hanswers
  cases hanswers with
  | unreached hex =>
      refine h.unapplied hmem (by simp [SyncCall.applied]) ?_ ?_ ?_ ?_
      · simp [HeartbeatLoop.settle, Cycle.metered, hex, AgentMetrics.noteDisconnected]
      · intro s' hs'
        rw [HeartbeatLoop.settle_world, hworld] at hs'
        exact .inl (Option.some.inj hs' ▸ rfl)
      · refine failed_snoc ?_
        simpa [Cycle.metered, hex] using hreconnects
      · intro _
        rw [connected_snoc_error]
        rfl
  | died =>
      refine h.unapplied hmem (by simp [SyncCall.applied]) rfl ?_ ?_ ?_
      · intro s' hs'
        rw [HeartbeatLoop.settle_world, hworld] at hs'
        cases hs'
      · rw [List.countP_append]
        show l.metrics.reconnectTotal = _
        simpa [SyncCall.failed] using hreconnects
      · intro hphase
        exact absurd rfl hphase
  | kept hex hsame =>
      refine h.unapplied hmem (by simp [SyncCall.applied]) ?_ ?_ ?_ ?_
      · simp [HeartbeatLoop.settle, Cycle.metered, hex]
      · intro s' hs'
        rw [HeartbeatLoop.settle_world, hworld] at hs'
        exact .inl (Option.some.inj hs' ▸ hsame)
      · rw [List.countP_append]
        simpa [HeartbeatLoop.settle, Cycle.metered, hex, SyncCall.failed] using hreconnects
      · intro _
        rw [connected_snoc]
        simp [HeartbeatLoop.settle, Cycle.metered, hex]
  | unsaved hex hlost =>
      refine h.unapplied hmem (by simp [SyncCall.applied]) ?_ ?_ ?_ ?_
      · simp [HeartbeatLoop.settle, Cycle.metered, hex, AgentMetrics.noteDisconnected]
      · intro s' hs'
        rw [HeartbeatLoop.settle_world, hworld] at hs'
        rcases hlost with hsame | ⟨_, _, d, hc, hs, hmsg, hfailed⟩
        · exact .inl (Option.some.inj hs' ▸ hsame)
        · cases hc
          cases hs
          exact .inr ⟨d, hmsg, hfailed⟩
      · refine failed_snoc ?_
        simpa [Cycle.metered, hex] using hreconnects
      · intro _
        rw [connected_snoc_error]
        rfl
  | applied hex hp hversion =>
      rename_i hb p s'
      have happlied : SyncCall.applied ⟨c, s, some (.ok true)⟩ := rfl
      have hgauge : (l.settle cfg c s genRange world (some (.ok true))).metrics.policyVersion =
          p.version.toInt64 := by
        simp [HeartbeatLoop.settle, Cycle.metered, hex, hp]
      refine ⟨?_, ?_, ?_, ?_, ?_⟩
      · rw [List.countP_append]
        simpa [HeartbeatLoop.settle, Cycle.metered, hex, hp, SyncCall.failed] using hreconnects
      · intro _
        rw [connected_snoc]
        simp [HeartbeatLoop.settle, Cycle.metered, hex, hp]
      · intro hnone
        exact absurd happlied (hnone _ (by simp))
      · intro s'' hs'' _ _
        rw [HeartbeatLoop.settle_world, hworld] at hs''
        rw [hgauge, ← Option.some.inj hs'', hversion]
      · intro _ _ _ _ _ hnone
        exact absurd happlied (hnone _ (by simp))

theorem run_metered (cfg : AgentConfig) (w : AgentWorld) (events : List RunEvent) :
    Metered cfg w (syncCalls cfg w events) ((heartbeatLoop cfg w).after events) := by
  refine run_history (I := fun _ calls l => Metered cfg w calls l) ?_ ?_ events
  · refine ⟨rfl, fun _ => rfl, fun _ => rfl, ?_, ?_⟩
    · rintro _ _ _ ⟨_, hcall, _⟩
      cases hcall
    · intro s s₀ hs₀ hs _ _
      rw [← Option.some.inj (hs₀.symm.trans hs)]
      rfl
  · intro events calls l e a l' hmoves h
    cases hmoves with
    | nothing => simpa using h
    | returns hlive => simpa using h.moved hlive
    | goesOn hlive _ => simpa using h.moved hlive
    | syncs c genRange s reply world _ hmem _ hanswers => exact h.synced hmem hanswers

/-- **What the metrics of the agent count.** In every run of the loop: `edge_reconnect_total` is the number of
calls of `sync_once` that failed, for whatever reason; until the process dies, `edge_control_plane_connected` is
1 exactly when the last call succeeded. `edge_policy_version` is 0 until a policy is applied in this process,
while the version reported is still that of the store it started with; from then on it is the version reported.
Both, where no policy is outstanding that was applied and not saved. -/
theorem run_gauges (cfg : AgentConfig) (w : AgentWorld) (events : List RunEvent) :
    let l := (heartbeatLoop cfg w).after events
    let calls := syncCalls cfg w events
    l.metrics.reconnectTotal = UInt64.ofNat (calls.countP SyncCall.failed) ∧
      (l.phase ≠ .died → l.metrics.controlPlaneConnected = if connected calls then 1 else 0) ∧
      ∀ s s₀, w.mem = some s₀ → l.world.mem = some s → ¬ MarkLost cfg calls →
        ((∃ call ∈ calls, call.applied) ∧ l.metrics.policyVersion = s.reported.policyVersion.toInt64) ∨
          ((∀ call ∈ calls, ¬ call.applied) ∧ l.metrics.policyVersion = 0 ∧ SameVersion s₀ s) := by
  intro l calls
  have h : Metered cfg w calls l := run_metered cfg w events
  refine ⟨h.reconnects, h.connected, ?_⟩
  intro s s₀ hs₀ hs hlost
  by_cases happlied : ∃ call ∈ calls, call.applied
  · exact .inl ⟨happlied, h.shown s hs hlost happlied⟩
  · have hnone : ∀ call ∈ calls, ¬ call.applied := fun call hcall h => happlied ⟨call, hcall, h⟩
    exact .inr ⟨hnone, h.unset hnone, h.same s s₀ hs₀ hs hlost hnone⟩

/-- A first policy of version 7. -/
theorem run_gauges_applied :
    ((heartbeatLoop anEdge freshAgent).after [.elapsed, .sync (carrying 7 1) fun _ => 0]).metrics.policyVersion = 7 := by
  have hlost : ¬ MarkLost anEdge (syncCalls anEdge freshAgent [.elapsed, .sync (carrying 7 1) fun _ => 0]) := by
    show ¬ MarkLost anEdge ([] ++ [⟨carrying 7 1, .fresh, some (.ok true)⟩])
    rw [markLost_snoc]
    rintro (⟨d, _, _, _, _, hmark⟩ | ⟨_, happlied⟩)
    · have hfaults : (carrying 7 1).faults = [] := rfl
      simp [hfaults, markFault, firstFault] at hmark
    · exact happlied rfl
  rcases (run_gauges anEdge freshAgent [.elapsed, .sync (carrying 7 1) fun _ => 0]).2.2 _ .fresh rfl rfl hlost with
    ⟨_, h⟩ | ⟨hnone, _⟩
  · exact h
  · exact absurd rfl (hnone _ (List.mem_singleton.mpr rfl))

end Runs

end Edgewarden.Agent
