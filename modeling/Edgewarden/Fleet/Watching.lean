/-
# Edgewarden.Fleet.Watching — a fleet whose agents sync by heartbeat, by watch stream, or by both in turn.

`run` keeps an agent in step by `sync_once`, `run_watch` by streams. Both write one store, and the registry
serves both. The two paths are separate code on both sides, so that a fleet converges on one of them says
nothing about a fleet that uses the other, or both.

* §1 `commandRun`: the handling of a command under faults. It is the handling of a message whose result is
  dropped (`handleCommand_update`).
* §2 adds the steps of streams to the steps of `Fleet.System`. An agent is in one call at a time. Its client
  sends one report on each stream, so there is one command on each (`Registry.watch_answers_in_order`).
* §3 extends the invariant of `Fleet.Convergence` by the commands on their way.
* `watching_fleet_converges` is the result over all runs.
-/
import Edgewarden.Agent.Watch
import Edgewarden.Fleet.Convergence

namespace Edgewarden.Fleet

open Edgewarden.Agent Edgewarden.FaultIo Edgewarden.Registry Edgewarden.Serde Edgewarden.State

/-! ## §1 A command under faults. -/

/-- The handling of a command by a running agent. -/
def command (s : StateStore) (cmd : CloudCommand) :
    Prog (Option StateStore) StoreReq (Unit × Option StateStore) := do
  let (_, s') ← (handleCommand cmd).run.run s
  return ((), some s')

/-- The agent after a command handled under a list of faults. -/
def commandRun (s : StateStore) (cmd : CloudCommand) (faults : List (Fault StoreTear)) (disk : StoreDisk) :
    World (Option StateStore) StoreDisk :=
  ((command s cmd).exec storeDevice none (some s) faults disk).2

section Command

variable {s : StateStore} {seq : Nat} {p : Policy}

/-- **Both ways to handle a policy make the same requests.** `run_watch` handles it as `sync_once` does and
drops the result: after an error of the first write there is no second one either way. -/
theorem handleCommand_update (s : StateStore) (seq : Nat) (p : Policy) :
    (handleCommand (.update seq p)).run.run s =
      (processMessage (watchDesired seq p)).run.run s >>= fun r => Prog.done (.ok (), r.2) := by
  unfold handleCommand processMessage
  simp only [CloudCommand.update]
  rw [Method.observed_bind, Method.run_bind, Prog.bind_assoc]
  congr 1
  funext r
  obtain ⟨r, s'⟩ := r
  cases r with
  | error e => rfl
  | ok action =>
      cases action with
      | noop => rfl
      | stageOta v => rfl
      | applyPolicy pol =>
          simp only
          rw [Method.observed_bind, Method.run_bind, Prog.bind_assoc]
          congr 1
          funext r
          obtain ⟨r, s''⟩ := r
          cases r <;> rfl

/-- **Everything the handling of a policy can do.** -/
theorem command_outcome (s : StateStore) (seq : Nat) (p : Policy) (faults : List (Fault StoreTear))
    (disk : StoreDisk) :
    FileAfter s (watchDesired seq p) disk.file (commandRun s (.update seq p) faults disk).disk.file ∧
      ∀ s', (commandRun s (.update seq p) faults disk).mem = some s' →
        s' = s.track (watchDesired seq p) ∨ s' = s.process (watchDesired seq p) := by
  have hfollows : (command s (.update seq p)).Follows storeDevice (fun _ => True)
      (fun _ disk' _ _ => FileAfter s (watchDesired seq p) disk.file disk'.file)
      (fun _ disk' b => FileAfter s (watchDesired seq p) disk.file disk'.file ∧
        ∀ s', b.2 = some s' → s' = s.track (watchDesired seq p) ∨ s' = s.process (watchDesired seq p))
      (some s) disk := by
    unfold command
    rw [Prog.follows_bind, handleCommand_update, Prog.follows_bind]
    refine processMessage_follows.mono ?_
    intro _ disk' r hr
    refine ⟨hr.file, ?_⟩
    intro s' hs'
    cases hs'
    exact hr.store
  unfold commandRun
  rcases hfollows.outcome none faults with ⟨_, d₁, _, q, t, hfile, hworld, _⟩ |
      ⟨_, d₁, b, _, ⟨hfile, hstore⟩, hworld, _⟩
  · rw [hworld]
    refine ⟨?_, fun _ h => by cases h⟩
    show FileAfter _ _ _ (q.tear t d₁).file
    rw [tear_file]
    exact hfile
  · rw [hworld]
    exact ⟨hfile, hstore⟩

/-- A noop makes no request. -/
theorem commandRun_noop (s : StateStore) (hint : Nat) (faults : List (Fault StoreTear)) (disk : StoreDisk) :
    commandRun s (.noop hint) faults disk = ⟨some s, disk⟩ := rfl

/-- Without a fault the agent lives, with the store of `Agent.Watch`. -/
theorem commandRun_quiet (s : StateStore) (cmd : CloudCommand) (disk : StoreDisk) :
    (commandRun s cmd [] disk).mem = some (afterCommand s disk cmd) := by
  unfold commandRun command afterCommand Method.quiet
  rw [Prog.exec_nil_world, Prog.quiet_bind]
  rfl

end Command

/-! ## §2 Streams in the fleet. -/

/-- How far the stream of an agent has come. -/
inductive WatchPhase
  | idle
  /-- The handler has read the report, and not yet the policy. -/
  | reported (rep : EdgeReport)
  /-- The answer is on its way. -/
  | commanded (cmd : CloudCommand)
  deriving DecidableEq, Repr

structure MixedState (ι : Type) where
  fleet : FleetState ι
  watch : ι → WatchPhase

inductive MixedEvent (ι : Type)
  /-- Any step of `Fleet.System`. -/
  | fleet (e : FleetEvent ι)
  /-- The report of an agent reaches the handler, which makes its heartbeat. -/
  | report (a : ι) (now : UInt64) (usage : ResourceUsage)
  /-- The handler reads the policy. -/
  | decide (a : ι)
  /-- The agent handles its command. -/
  | command (a : ι) (faults : List (Fault StoreTear))
  /-- The stream breaks. -/
  | lose (a : ι)

/-- The agent whose `sync_once` takes this step. -/
def syncing {ι : Type} : FleetEvent ι → Option ι
  | .register a _ _ => some a
  | .heartbeat a _ _ _ _ => some a
  | .fail a => some a
  | .finish a _ => some a
  | _ => none

/-- The agent that this event is a step of. -/
def MixedEvent.agent {ι : Type} : MixedEvent ι → Option ι
  | .fleet (.crash a) => some a
  | .fleet (.reopen a _) => some a
  | .fleet e => syncing e
  | .report a _ _ => some a
  | .decide a => some a
  | .command a _ => some a
  | .lose a => some a

section

variable {ι : Type} [DecidableEq ι]

def MixedState.setWatch (w : MixedState ι) (a : ι) (phase : WatchPhase) : MixedState ι :=
  { w with watch := Function.update w.watch a phase }

/-- The streams after a step of the rest of the fleet: a process that ends takes its streams with it. -/
def watchAfter (watch : ι → WatchPhase) : FleetEvent ι → ι → WatchPhase
  | .crash a => Function.update watch a .idle
  | .restart => fun a =>
      match watch a with
      | .reported _ => .idle
      | phase => phase
  | _ => watch

def MixedState.step (cfg : ι → AgentConfig) (w : MixedState ι) : MixedEvent ι → MixedState ι
  | .fleet e =>
      -- an agent with a stream is in `run_watch`, and not in `sync_once`
      if ∃ a, syncing e = some a ∧ w.watch a ≠ .idle then w
      else ⟨w.fleet.step cfg e, watchAfter w.watch e⟩
  | .report a now usage =>
      match (w.fleet.agents a).mem, (w.fleet.agents a).phase, w.watch a, w.fleet.registry with
      | some s, .idle, .idle, some r =>
          let rep := edgeReport (cfg a) s usage
          { w with fleet := { w.fleet with registry := some (r.heartbeatUpdate now rep.heartbeat).2 } }.setWatch a
            (.reported rep)
      | _, _, _, _ => w
  | .decide a =>
      match w.watch a, w.fleet.registry with
      | .reported rep, some r => w.setWatch a (.commanded (rep.answer r.currentPolicy))
      | _, _ => w
  | .command a faults =>
      match w.watch a, (w.fleet.agents a).mem with
      | .commanded cmd, some s =>
          let world := commandRun s cmd faults (w.fleet.agents a).disk
          { w with fleet := w.fleet.setAgent a ⟨world.mem, world.disk, .idle⟩ }.setWatch a .idle
      | _, _ => w
  | .lose a => w.setWatch a .idle

/-- The fleet after a sequence of events, from an empty registry and fresh agents. -/
def MixedState.after (cfg : ι → AgentConfig) (events : List (MixedEvent ι)) : MixedState ι :=
  events.foldl (MixedState.step cfg) ⟨.initial ι, fun _ => .idle⟩

theorem mixed_snoc (cfg : ι → AgentConfig) (events : List (MixedEvent ι)) (e : MixedEvent ι) :
    MixedState.after cfg (events ++ [e]) = (MixedState.after cfg events).step cfg e := by
  simp [MixedState.after]

@[simp] theorem setWatch_same (w : MixedState ι) (a : ι) (phase : WatchPhase) : (w.setWatch a phase).watch a = phase := by
  simp [MixedState.setWatch]

theorem setWatch_other (w : MixedState ι) {a b : ι} (phase : WatchPhase) (h : b ≠ a) :
    (w.setWatch a phase).watch b = w.watch b := by
  simp [MixedState.setWatch, h]

/-! ## §3 The invariant. -/

/-- A command on its way says no more than the mark. -/
structure CommandOk (k : Mark) (cmd : CloudCommand) : Prop where
  known : (∃ seq p, cmd = .update seq p) ∨ ∃ hint, cmd = .noop hint
  positive : ∀ seq p, cmd = .update seq p → 0 < seq
  le : ∀ seq p, cmd = .update seq p → seq ≤ k.seq
  level : ∀ seq p, cmd = .update seq p → seq = k.seq → k.version = some p.version

/-- The stream of an agent: its report is of its store, and its command says no more than the mark. -/
structure StreamOk (cfg : AgentConfig) (k : Mark) (s : AgentState) (phase : WatchPhase) : Prop where
  /-- An agent with a stream runs, and is not in `sync_once`. -/
  alone : phase ≠ .idle → s.mem ≠ none ∧ s.phase = .idle
  report : ∀ rep, phase = .reported rep → ∃ store usage, s.mem = some store ∧ rep = edgeReport cfg store usage
  command : ∀ cmd, phase = .commanded cmd → CommandOk k cmd

structure MixedInv (cfg : ι → AgentConfig) (k : Mark) (w : MixedState ι) : Prop where
  fleet : FleetInv k w.fleet
  streams : ∀ a, StreamOk (cfg a) k (w.fleet.agents a) (w.watch a)

theorem StreamOk.idle (cfg : AgentConfig) (k : Mark) (s : AgentState) : StreamOk cfg k s .idle :=
  ⟨fun h => absurd rfl h, nofun, nofun⟩

theorem CommandOk.next {k k' : Mark} {cmd : CloudCommand} (h : CommandOk k cmd) (hk : k.Next k') :
    CommandOk k' cmd := by
  rcases hk with rfl | hk
  · exact h
  · refine ⟨h.known, h.positive, ?_, ?_⟩
    · intro seq p hcmd
      have hle := h.le seq p hcmd
      omega
    · intro seq p hcmd heq
      have hle := h.le seq p hcmd
      omega

theorem StreamOk.next {cfg : AgentConfig} {k k' : Mark} {s : AgentState} {phase : WatchPhase}
    (h : StreamOk cfg k s phase) (hk : k.Next k') : StreamOk cfg k' s phase :=
  ⟨h.alone, h.report, fun cmd hcmd => (h.command cmd hcmd).next hk⟩

section Steps

variable {cfg : ι → AgentConfig} {k : Mark} {w : MixedState ι}

omit [DecidableEq ι] in
/-- An operation keeps the mark or raises its seq. -/
theorem FleetInv.operate_next {w : FleetState ι} (h : FleetInv k w) (op : Op) :
    ∃ k', k.Next k' ∧ FleetInv k' (w.operate op) := by
  cases hr : w.registry with
  | none =>
      refine ⟨k, .inl rfl, ?_⟩
      unfold FleetState.operate
      rw [hr]
      exact h
  | some r =>
      obtain ⟨k', h'⟩ := h.operate op
      have hk : mark r = k := h.cloud.registry r hr
      have hk' : mark (op.apply r).2 = k' := by
        refine h'.cloud.registry _ ?_
        unfold FleetState.operate
        rw [hr]
        rfl
      exact ⟨k', hk ▸ hk' ▸ mark_apply op r, h'⟩

/-- A step of `Fleet.System` keeps the mark or raises its seq. -/
theorem FleetInv.step_next {w : FleetState ι} (h : FleetInv k w) (cfg : ι → AgentConfig) (e : FleetEvent ι) :
    ∃ k', k.Next k' ∧ FleetInv k' (w.step cfg e) := by
  cases e with
  | operation op => exact h.operate_next op
  | register a now lost =>
      show ∃ k', k.Next k' ∧ FleetInv k' (w.register (cfg a) a now lost)
      unfold FleetState.register
      split
      · obtain ⟨k', hk, h'⟩ := h.operate_next (.register now (registerRequest (cfg a) _).args)
        refine ⟨k', hk, h'.setPhase a ?_⟩
        intro hb
        split <;> exact nofun
      · exact ⟨k, .inl rfl, h⟩
  | restart => exact ⟨k, .inl rfl, h.restart⟩
  | heartbeat a now usage active lost => exact ⟨k, .inl rfl, h.heartbeat (cfg a) a now usage active lost⟩
  | fail a => exact ⟨k, .inl rfl, h.setPhase a nofun⟩
  | finish a faults => exact ⟨k, .inl rfl, h.finish a faults⟩
  | crash a => exact ⟨k, .inl rfl, h.setAgent a (.of_idle nofun (h.agents a).disk)⟩
  | reopen a faults => exact ⟨k, .inl rfl, h.reopen a faults⟩

/-- The agents that a step of `Fleet.System` leaves alone. -/
theorem step_agents_other {w : FleetState ι} {e : FleetEvent ι} {a : ι} (h : (MixedEvent.fleet e).agent ≠ some a) :
    (w.step cfg e).agents a = w.agents a := by
  have hne : ∀ {b : ι}, (MixedEvent.fleet e).agent = some b → a ≠ b := fun hb hab => h (hab ▸ hb)
  cases e with
  | operation op =>
      show (w.operate op).agents a = _
      unfold FleetState.operate
      split <;> rfl
  | restart => rfl
  | register b now lost =>
      show (w.register (cfg b) b now lost).agents a = _
      unfold FleetState.register
      split
      · rw [FleetState.setPhase, setAgent_other _ _ (hne rfl)]
        unfold FleetState.operate
        split <;> rfl
      · rfl
  | heartbeat b now usage active lost =>
      show (w.heartbeat (cfg b) b now usage active lost).agents a = _
      unfold FleetState.heartbeat
      split
      · rw [FleetState.setPhase, setAgent_other _ _ (hne rfl)]
      · rfl
  | fail b => exact setAgent_other _ _ (hne rfl)
  | finish b faults =>
      show (w.finish b faults).agents a = _
      unfold FleetState.finish
      split
      · rw [setAgent_other _ _ (hne rfl)]
      · rfl
  | crash b => exact setAgent_other _ _ (hne rfl)
  | reopen b faults =>
      show (w.reopen b faults).agents a = _
      unfold FleetState.reopen
      split
      · rfl
      · rw [setAgent_other _ _ (hne rfl)]

omit [DecidableEq ι] in
/-- A registry that wants the same. -/
theorem FleetInv.setRegistry {w : FleetState ι} (h : FleetInv k w) {r : Inner} (hr : mark r = k) :
    FleetInv k { w with registry := some r } := by
  refine ⟨⟨h.cloud.positive, ?_, h.cloud.file⟩, h.agents⟩
  intro r' hr'
  cases hr'
  exact hr

/-- The stream of one agent moves. -/
theorem MixedInv.setWatch (h : MixedInv cfg k w) (a : ι) {phase : WatchPhase}
    (hphase : StreamOk (cfg a) k (w.fleet.agents a) phase) : MixedInv cfg k (w.setWatch a phase) := by
  refine ⟨h.fleet, ?_⟩
  intro b
  by_cases hb : b = a
  · rw [hb, setWatch_same]
    exact hphase
  · rw [setWatch_other w phase hb]
    exact h.streams b

theorem watchAfter_cases (watch : ι → WatchPhase) (e : FleetEvent ι) (a : ι) :
    watchAfter watch e a = .idle ∨
      (watchAfter watch e a = watch a ∧ e ≠ .crash a) := by
  cases e with
  | crash b =>
      by_cases h : a = b
      · simp [watchAfter, h]
      · right
        simp only [watchAfter, Function.update_of_ne h, true_and]
        intro heq
        exact h (FleetEvent.crash.inj heq).symm
  | restart =>
      show (match watch a with | .reported _ => WatchPhase.idle | phase => phase) = _ ∨ _
      cases hphase : watch a with
      | reported rep => exact .inl rfl
      | idle => exact .inl rfl
      | commanded cmd => exact .inr ⟨hphase ▸ (by simp [watchAfter, hphase]), nofun⟩
  | _ => exact .inr ⟨rfl, nofun⟩

/-- A step of the rest of the fleet. -/
theorem MixedInv.fleetStep (h : MixedInv cfg k w) (e : FleetEvent ι) :
    ∃ k', MixedInv cfg k' (w.step cfg (.fleet e)) := by
  simp only [MixedState.step]
  split
  · exact ⟨k, h⟩
  · rename_i hfree
    obtain ⟨k', hk, hfleet⟩ := h.fleet.step_next cfg e
    refine ⟨k', hfleet, ?_⟩
    intro a
    show StreamOk (cfg a) k' ((w.fleet.step cfg e).agents a) (watchAfter w.watch e a)
    rcases watchAfter_cases w.watch e a with hidle | ⟨hsame, hcrash⟩
    · rw [hidle]
      exact .idle _ _ _
    · by_cases hphase : w.watch a = .idle
      · rw [hsame, hphase]
        exact .idle _ _ _
      · -- an agent with a stream: the step is not its own, or does nothing
        have hagent : (w.fleet.step cfg e).agents a = w.fleet.agents a := by
          by_cases hown : (MixedEvent.fleet e).agent = some a
          · have hsync : syncing e ≠ some a := fun hs => hfree ⟨a, hs, hphase⟩
            cases e with
            | crash b =>
                cases hown
                exact absurd rfl hcrash
            | reopen b faults =>
                cases hown
                obtain ⟨s, hs⟩ := Option.ne_none_iff_exists'.mp ((h.streams a).alone hphase).1
                show (w.fleet.reopen a faults).agents a = _
                unfold FleetState.reopen
                rw [hs]
            | operation op => cases hown
            | restart => cases hown
            | register b now lost => exact absurd hown hsync
            | heartbeat b now usage active lost => exact absurd hown hsync
            | fail b => exact absurd hown hsync
            | finish b faults => exact absurd hown hsync
          · exact step_agents_other hown
        rw [hagent, hsame]
        exact (h.streams a).next hk

theorem MixedInv.report (h : MixedInv cfg k w) (a : ι) (now : UInt64) (usage : ResourceUsage) :
    MixedInv cfg k (w.step cfg (.report a now usage)) := by
  simp only [MixedState.step]
  split
  · rename_i s r hmem hphase _ hr
    have hquiet : mark ((Op.heartbeat now (edgeReport (cfg a) s usage).heartbeat).apply r).2 = k :=
      (mark_apply_quiet rfl).trans (h.fleet.cloud.registry r hr)
    have hheard : MixedInv cfg k ⟨{ w.fleet with registry := some _ }, w.watch⟩ :=
      ⟨h.fleet.setRegistry hquiet, h.streams⟩
    refine hheard.setWatch a ⟨fun _ => ⟨?_, hphase⟩, ?_, nofun⟩
    · simp [hmem]
    · intro rep hrep
      exact ⟨s, usage, hmem, (WatchPhase.reported.inj hrep).symm⟩
  · exact h

/-- What the handler answers says no more than the registry. -/
theorem commandOk_answer {r : Inner} (hr : mark r = k) (rep : EdgeReport) :
    CommandOk k (rep.answer r.currentPolicy) := by
  have hupdate : ∀ seq p, rep.answer r.currentPolicy = .update seq p →
      r.policy = some p ∧ r.policySeq = seq ∧ seq > rep.appliedSeq := by
    intro seq p heq
    have hserved : (serveReport r 0 rep).1 = .update seq p := serveReport_answer.trans heq
    obtain ⟨hpolicy, hseq, hlt, _⟩ := serveReport_eq_update_iff.mp hserved
    exact ⟨hpolicy, hseq, hlt⟩
  have hcases : (∃ seq p, rep.answer r.currentPolicy = .update seq p) ∨
      rep.answer r.currentPolicy = .noop rep.appliedSeq := by
    have hanswer : (serveReport r 0 rep).1 = rep.answer r.currentPolicy := serveReport_answer
    rw [← hanswer]
    exact serveReport_cases
  refine ⟨hcases.imp_right fun heq => ⟨_, heq⟩, ?_, ?_, ?_⟩
  · intro seq p heq
    have := (hupdate seq p heq).2.2
    omega
  · intro seq p heq
    rw [← hr]
    exact Nat.le_of_eq (hupdate seq p heq).2.1.symm
  · intro seq p heq _
    rw [← hr]
    show r.policy.map _ = _
    rw [(hupdate seq p heq).1]
    rfl

theorem MixedInv.decide (h : MixedInv cfg k w) (a : ι) : MixedInv cfg k (w.step cfg (.decide a)) := by
  simp only [MixedState.step]
  split
  · rename_i rep r hwatch hr
    refine h.setWatch a ⟨fun _ => (h.streams a).alone (by rw [hwatch]; nofun), nofun, ?_⟩
    intro cmd hcmd
    rw [← WatchPhase.commanded.inj hcmd]
    exact commandOk_answer (h.fleet.cloud.registry r hr) rep
  · exact h

/-- An agent handles its command, whatever fails. -/
theorem MixedInv.command (h : MixedInv cfg k w) (a : ι) (faults : List (Fault StoreTear)) :
    MixedInv cfg k (w.step cfg (.command a faults)) := by
  simp only [MixedState.step]
  split
  · rename_i cmd s hwatch hmem
    have hcmd := (h.streams a).command cmd hwatch
    have hs := (h.fleet.agents a).mem s hmem
    have hagent : AgentOk k ⟨(commandRun s cmd faults (w.fleet.agents a).disk).mem,
        (commandRun s cmd faults (w.fleet.agents a).disk).disk, .idle⟩ := by
      rcases hcmd.known with ⟨seq, p, rfl⟩ | ⟨hint, rfl⟩
      · have hseq : (watchDesired seq p).seq = seq := Nat.max_eq_left (hcmd.positive seq p rfl)
        have hprocess : Behind k (s.process (watchDesired seq p)).reported :=
          process_behind hs (by rw [hseq]; exact hcmd.le seq p rfl)
            (fun heq => hcmd.level seq p rfl (hseq.symm.trans heq))
        obtain ⟨hfile, hstore⟩ := command_outcome s seq p faults (w.fleet.agents a).disk
        refine .of_idle ?_ ((h.fleet.agents a).disk.handled hs hprocess hfile)
        intro s' hs'
        rcases hstore s' hs' with rfl | rfl
        · rw [StateStore.track_reported]
          exact hs
        · exact hprocess
      · rw [commandRun_noop]
        refine .of_idle ?_ (h.fleet.agents a).disk
        intro s' hs'
        cases hs'
        exact hs
    refine ⟨h.fleet.setAgent a hagent, ?_⟩
    intro b
    by_cases hb : b = a
    · rw [hb, setWatch_same]
      exact .idle _ _ _
    · rw [setWatch_other _ _ hb]
      show StreamOk (cfg b) k ((w.fleet.setAgent a _).agents b) (w.watch b)
      rw [setAgent_other _ _ hb]
      exact h.streams b
  · exact h

theorem MixedInv.step (h : MixedInv cfg k w) (e : MixedEvent ι) : ∃ k', MixedInv cfg k' (w.step cfg e) := by
  cases e with
  | fleet e => exact h.fleetStep e
  | report a now usage => exact ⟨k, h.report a now usage⟩
  | decide a => exact ⟨k, h.decide a⟩
  | command a faults => exact ⟨k, h.command a faults⟩
  | lose a => exact ⟨k, h.setWatch a (.idle _ _ _)⟩

end Steps

theorem mixedInv_after (cfg : ι → AgentConfig) (events : List (MixedEvent ι)) :
    ∃ k, MixedInv cfg k (MixedState.after cfg events) := by
  induction events using List.reverseRecOn with
  | nil =>
      obtain ⟨k, hk⟩ := fleetInv_after cfg ([] : List (FleetEvent ι))
      exact ⟨k, hk, fun a => .idle _ _ _⟩
  | append_singleton events e ih =>
      obtain ⟨k, hk⟩ := ih
      rw [mixed_snoc]
      exact hk.step e

/-! ## §4 The result. -/

/-- A command that waits for its agent stays as it is, and so does the agent. -/
theorem step_commanded {cfg : ι → AgentConfig} {w : MixedState ι} {e : MixedEvent ι} {a : ι} {cmd : CloudCommand}
    (h : w.watch a = .commanded cmd) (he : e.agent ≠ some a) :
    (w.step cfg e).watch a = .commanded cmd ∧ (w.step cfg e).fleet.agents a = w.fleet.agents a := by
  have hne : ∀ {b : ι}, e.agent = some b → a ≠ b := fun hb hab => he (hab ▸ hb)
  cases e with
  | fleet e =>
      simp only [MixedState.step]
      split
      · exact ⟨h, rfl⟩
      · refine ⟨?_, step_agents_other he⟩
        show watchAfter w.watch e a = _
        cases e with
        | crash b => rw [watchAfter, Function.update_of_ne (hne rfl), h]
        | restart => simp [watchAfter, h]
        | _ => exact h
  | report b now usage =>
      simp only [MixedState.step]
      split
      · exact ⟨(setWatch_other _ _ (hne rfl)).trans h, rfl⟩
      · exact ⟨h, rfl⟩
  | decide b =>
      simp only [MixedState.step]
      split
      · exact ⟨(setWatch_other _ _ (hne rfl)).trans h, rfl⟩
      · exact ⟨h, rfl⟩
  | command b faults =>
      simp only [MixedState.step]
      split
      · exact ⟨(setWatch_other _ _ (hne rfl)).trans h, setAgent_other _ _ (hne rfl)⟩
      · exact ⟨h, rfl⟩
  | lose b => exact ⟨(setWatch_other _ _ (hne rfl)).trans h, rfl⟩

theorem after_commanded {cfg : ι → AgentConfig} {events between : List (MixedEvent ι)} {a : ι} {cmd : CloudCommand}
    (h : (MixedState.after cfg events).watch a = .commanded cmd) (hbetween : ∀ e ∈ between, e.agent ≠ some a) :
    (MixedState.after cfg (events ++ between)).watch a = .commanded cmd ∧
      (MixedState.after cfg (events ++ between)).fleet.agents a = (MixedState.after cfg events).fleet.agents a := by
  induction between using List.reverseRecOn with
  | nil =>
      rw [List.append_nil]
      exact ⟨h, rfl⟩
  | append_singleton between e ih =>
      obtain ⟨hwatch, hagent⟩ := ih fun e' he' => hbetween e' (List.mem_append_left _ he')
      rw [← List.append_assoc, mixed_snoc, ← hagent]
      exact step_commanded hwatch (hbetween e (by simp))

/-- **A store that is not ahead of the registry follows its command to the current version**, also if the command
is a noop. -/
theorem afterCommand_current {k : Mark} {s : StateStore} {r : Inner} {p : Policy} (hs : Behind k s.reported)
    (hr : mark r = k) (hp : r.policy = some p) (hpos : 0 < k.seq) (cfg : AgentConfig) (usage : ResourceUsage)
    (disk : StoreDisk) :
    (afterCommand s disk ((edgeReport cfg s usage).answer r.currentPolicy)).reported.policyVersion = p.version := by
  have hanswer : (serveReport r 0 (edgeReport cfg s usage)).1 = (edgeReport cfg s usage).answer r.currentPolicy :=
    serveReport_answer
  have hcases : (∃ seq q, (serveReport r 0 (edgeReport cfg s usage)).1 = .update seq q) ∨
      (serveReport r 0 (edgeReport cfg s usage)).1 = .noop s.reported.appliedSeq := serveReport_cases
  rcases hcases with ⟨seq, q, hupdate⟩ | hnoop
  · have hq : p = q := Option.some.inj (hp.symm.trans (serveReport_edgeReport_iff.mp hupdate).1)
    rw [← hanswer, hupdate, afterCommand_version hupdate, hq]
  · rw [← hanswer, hnoop, afterCommand_noop]
    by_contra hne
    have hseq : r.policySeq = k.seq := by
      rw [← hr]
      rfl
    -- a newer seq would have been pushed, and at the same seq the versions are the same
    rcases Nat.lt_or_ge s.reported.appliedSeq r.policySeq with hlt | hge
    · have hpush : (serveReport r 0 (edgeReport cfg s usage)).1 = .update r.policySeq p :=
        serveReport_edgeReport_iff.mpr ⟨hp, rfl, hlt, fun heq => hne heq.symm⟩
      exact CloudCommand.update_ne_noop _ _ _ (hpush.symm.trans hnoop)
    · have hlevel := hs.level (Nat.le_antisymm hs.le (by omega)) hpos
      have hversion : k.version = some p.version := by
        rw [← hr]
        show r.policy.map _ = _
        rw [hp]
        rfl
      exact hne (Option.some.inj (hlevel.symm.trans hversion))

/-- **The fleet converges on both paths.** In every run of a fleet whose control plane persists (one mutation at a
time, each with its snapshot) and whose agents sync by heartbeat and by watch stream, whatever else fails and
whoever crashes or restarts in between:

* an agent that handles its command, and whose state file can be written, stands at the version of the policy
  that was current when the handler decided, be the command a policy or a noop;
* a `sync_once` that returns `Ok` after a heartbeat answered with a policy leaves the agent at its version;
* no agent is ever ahead of the registry. -/
theorem watching_fleet_converges (cfg : ι → AgentConfig) :
    (∀ before between a rep r p, (MixedState.after cfg before).watch a = .reported rep →
        (MixedState.after cfg before).fleet.registry = some r → r.policy = some p →
        (∀ e ∈ between, e.agent ≠ some a) →
        ∃ s, ((MixedState.after cfg (before ++ [.decide a] ++ between ++ [.command a []])).fleet.agents a).mem = some s ∧
          s.reported.policyVersion = p.version) ∧
      (∀ events a faults hb p b, ((MixedState.after cfg events).fleet.agents a).phase = .answered hb →
        hb.policy = some p → (MixedState.after cfg events).fleet.replies a faults = [.ok b] →
        ∃ s, ((MixedState.after cfg (events ++ [.fleet (.finish a faults)])).fleet.agents a).mem = some s ∧
          s.reported.policyVersion = p.version) ∧
      ∀ events a s r, ((MixedState.after cfg events).fleet.agents a).mem = some s →
        (MixedState.after cfg events).fleet.registry = some r → s.reported.appliedSeq ≤ r.policySeq := by
  refine ⟨?_, ?_, ?_⟩
  · intro before between a rep r p hwatch hr hp hbetween
    obtain ⟨k, hk⟩ := mixedInv_after cfg before
    obtain ⟨s, usage, hmem, rfl⟩ := (hk.streams a).report rep hwatch
    have hmark : mark r = k := hk.fleet.cloud.registry r hr
    have hversion : k.version ≠ none := by
      rw [← hmark]
      show r.policy.map _ ≠ _
      simp [hp]
    -- the decision, the wait, and the handling
    have hdecided : (MixedState.after cfg (before ++ [.decide a])).watch a =
        .commanded ((edgeReport (cfg a) s usage).answer r.currentPolicy) ∧
        (MixedState.after cfg (before ++ [.decide a])).fleet = (MixedState.after cfg before).fleet := by
      rw [mixed_snoc]
      simp only [MixedState.step, hwatch, hr]
      exact ⟨setWatch_same _ _ _, rfl⟩
    obtain ⟨hwaits, hagent⟩ := after_commanded hdecided.1 hbetween
    rw [hdecided.2] at hagent
    have hcurrent := afterCommand_current ((hk.fleet.agents a).mem s hmem) hmark hp (hk.fleet.cloud.positive hversion)
      (cfg a) usage ((MixedState.after cfg before).fleet.agents a).disk
    refine ⟨_, ?_, hcurrent⟩
    rw [mixed_snoc]
    have hmem' : ((MixedState.after cfg (before ++ [.decide a] ++ between)).fleet.agents a).mem = some s := by
      rw [hagent, hmem]
    simp only [MixedState.step, hwaits, hmem', MixedState.setWatch]
    rw [setAgent_same, hagent]
    exact commandRun_quiet s _ _
  · intro events a faults hb p b hphase hp hok
    obtain ⟨k, hk⟩ := mixedInv_after cfg events
    obtain ⟨s, hs, hversion⟩ := hk.fleet.finish_version hphase hp hok
    refine ⟨s, ?_, hversion⟩
    have hidle : (MixedState.after cfg events).watch a = .idle := by
      by_contra hne
      have hphase' := ((hk.streams a).alone hne).2
      rw [hphase] at hphase'
      cases hphase'
    have hfree : ¬ ∃ a', syncing (.finish a faults) = some a' ∧ (MixedState.after cfg events).watch a' ≠ .idle := by
      rintro ⟨a', ha', hne⟩
      cases ha'
      exact hne hidle
    rw [mixed_snoc]
    simp only [MixedState.step, if_neg hfree]
    exact hs
  · intro events a s r hmem hr
    obtain ⟨k, hk⟩ := mixedInv_after cfg events
    have hmark : mark r = k := hk.fleet.cloud.registry r hr
    have hle := ((hk.fleet.agents a).mem s hmem).le
    rw [← hmark] at hle
    exact hle

end

/-- A fresh agent has reported on a stream; the registry is at version 5. -/
def firstReport : List (MixedEvent Unit) :=
  [.fleet (.operation (.setPolicy { Policy.default with version := 5 })), .report () 7 ⟨F64.zero, 0, 0, 0⟩]

theorem watching_fleet_converges_firstReport :
    (∃ rep, (MixedState.after (fun _ => ⟨"edge-01", "dev-hw", "0.1.0"⟩) firstReport).watch () = .reported rep) ∧
      ∃ s, ((MixedState.after (fun _ => ⟨"edge-01", "dev-hw", "0.1.0"⟩)
          (firstReport ++ [.decide ()] ++ [.fleet .restart] ++ [.command () []])).fleet.agents ()).mem = some s ∧
        s.reported.policyVersion = 5 := by
  have hwatch : (MixedState.after (fun _ => ⟨"edge-01", "dev-hw", "0.1.0"⟩) firstReport).watch () =
      .reported (edgeReport ⟨"edge-01", "dev-hw", "0.1.0"⟩ .fresh ⟨F64.zero, 0, 0, 0⟩) := by decide +kernel
  have hpolicy : (MixedState.after (fun _ => ⟨"edge-01", "dev-hw", "0.1.0"⟩) firstReport).fleet.registry.map
      (fun r => r.policy) = some (some { Policy.default with version := 5 }) := by decide +kernel
  obtain ⟨r, hr, hp⟩ := Option.map_eq_some_iff.mp hpolicy
  refine ⟨⟨_, hwatch⟩, ?_⟩
  refine (watching_fleet_converges _).1 firstReport [.fleet .restart] () _ r _ hwatch hr hp ?_
  intro e he
  rw [List.mem_singleton.mp he]
  nofun

end Edgewarden.Fleet
