/-
# Edgewarden.Fleet.Convergence — a successful sync leaves the agent at the policy it was sent.

An agent drops every message whose seq is not above its `applied_seq`. So it converges only if the two
numbers it remembers, `applied_seq` and `policy_version`, never say more than the registry said:
`Behind k` is that property, for the registry's current mark `k` (its policy version and its seq). It is
kept by every step of the fleet, for the store in memory, for the store in the state file and for the
answer on its way (`FleetInv`), because an operation either keeps the mark or raises its seq.

`fleet_converges` is the result over all runs.
-/
import Edgewarden.Fleet.System
import Edgewarden.Registry.Snapshot

namespace Edgewarden.Fleet

open Edgewarden.Agent Edgewarden.FaultIo Edgewarden.Registry Edgewarden.Serde Edgewarden.State

/-! ## §1 Marks. -/

/-- What the registry currently wants: the version of its policy, if it has one, and the seq. -/
structure Mark where
  version : Option UInt64
  seq : Nat
  deriving DecidableEq, Repr

def mark (r : Inner) : Mark := ⟨r.policy.map fun p => p.version, r.policySeq⟩

/-- What an operation does to the mark: nothing, or the next seq. -/
def Mark.Next (k k' : Mark) : Prop := k' = k ∨ k'.seq = k.seq + 1

theorem mark_apply (op : Op) (r : Inner) : (mark r).Next (mark (op.apply r).2) := by
  have heff := op.effect r
  generalize op.apply r = result at heff
  cases heff with
  | kept _ => exact .inl rfl
  | registered now args => exact .inl rfl
  | refreshed now u d _ => exact .inl rfl
  | policy p _ => exact .inr rfl
  | software version _ => exact .inr rfl

theorem mark_apply_quiet {op : Op} {r : Inner} (h : (op.apply r).1 = false) :
    mark (op.apply r).2 = mark r := by
  have hsame := op.apply_sameRoster h
  unfold mark
  rw [hsame.policy, hsame.policySeq]

/-- A report that says no more than mark `k`: it is not ahead, and where it is level it stands at the
version of the mark. -/
structure Behind (k : Mark) (rep : ReportedState) : Prop where
  le : rep.appliedSeq ≤ k.seq
  level : rep.appliedSeq = k.seq → 0 < k.seq → k.version = some rep.policyVersion

theorem Behind.next {k k' : Mark} {rep : ReportedState} (h : Behind k rep) (hk : k.Next k') :
    Behind k' rep := by
  rcases hk with rfl | hk
  · exact h
  · have hle := h.le
    exact ⟨by omega, fun heq => by omega⟩

theorem behind_default (k : Mark) : Behind k .default := by
  refine ⟨Nat.zero_le _, ?_⟩
  intro heq hpos
  have heq' : 0 = k.seq := heq
  omega

/-! ## §2 One message. -/

section Message

variable {s : StateStore} {d : DesiredState}

/-- **A message that the store is not ahead of is obeyed**: afterwards the store stands at its
version. -/
theorem process_version (hpos : 0 < d.seq) (h : Behind ⟨some d.policy.version, d.seq⟩ s.reported) :
    (s.process d).reported.policyVersion = d.policy.version := by
  have hpair := StateStore.process_reported s d
  by_cases hnew : s.reported.appliedSeq < d.seq ∧ d.policy.version ≠ s.reported.policyVersion
  · rw [if_pos hnew] at hpair
    exact (Prod.mk.inj hpair).1
  · rw [if_neg hnew] at hpair
    rw [(Prod.mk.inj hpair).1]
    by_cases hlt : s.reported.appliedSeq < d.seq
    · by_contra hne
      exact hnew ⟨hlt, fun heq => hne heq.symm⟩
    · -- the message is not newer, so the store is level with it
      have heq : s.reported.appliedSeq = d.seq := Nat.le_antisymm h.le (Nat.not_lt.mp hlt)
      exact (Option.some.inj (h.level heq hpos)).symm

/-- A message that says no more than the mark leaves a store that says no more. -/
theorem process_behind {k : Mark} (h : Behind k s.reported) (hle : d.seq ≤ k.seq)
    (hlevel : d.seq = k.seq → k.version = some d.policy.version) :
    Behind k (s.process d).reported := by
  have hpair := StateStore.process_reported s d
  split at hpair
  · obtain ⟨hv, hs⟩ := Prod.mk.inj hpair
    refine ⟨by rw [hs]; exact hle, ?_⟩
    intro heq _
    rw [hv]
    exact hlevel (hs.symm.trans heq)
  · obtain ⟨hv, hs⟩ := Prod.mk.inj hpair
    refine ⟨by rw [hs]; exact h.le, ?_⟩
    intro heq hpos
    rw [hv]
    exact h.level (hs.symm.trans heq) hpos

end Message

/-! ## §3 The invariant. -/

/-- A response on its way to an agent with store `mem`: it says no more than the mark, and the store
says no more than the response. -/
structure AnswerOk (k : Mark) (mem : Option StateStore) (hb : HeartbeatResponse) (p : Policy) :
    Prop where
  has : hb.hasPolicy = true
  positive : 0 < hb.desiredSeq
  le : hb.desiredSeq ≤ k.seq
  level : hb.desiredSeq = k.seq → k.version = some p.version
  store : ∀ s, mem = some s → Behind ⟨some p.version, hb.desiredSeq⟩ s.reported

/-- The state file is missing or holds a store that says no more than the mark. -/
def FileBehind (k : Mark) (file : Option (Contents Json)) : Prop :=
  file = none ∨ ∃ s : StateStore, file = some (.whole s.json) ∧ Behind k s.reported

structure AgentOk (k : Mark) (s : AgentState) : Prop where
  mem : ∀ store, s.mem = some store → Behind k store.reported
  disk : FileBehind k s.disk.file
  answer : ∀ hb p, s.phase = .answered hb → hb.policy = some p → AnswerOk k s.mem hb p

structure CloudOk (k : Mark) (registry : Option Inner) (file : Option Json) : Prop where
  positive : k.version ≠ none → 0 < k.seq
  registry : ∀ r, registry = some r → mark r = k
  file : (file = none ∧ k = ⟨none, 0⟩) ∨ ∃ r, file = some r.file ∧ mark r = k

structure FleetInv {ι : Type} (k : Mark) (w : FleetState ι) : Prop where
  cloud : CloudOk k w.registry w.file
  agents : ∀ a, AgentOk k (w.agents a)

theorem AgentOk.next {k k' : Mark} {s : AgentState} (h : AgentOk k s) (hk : k.Next k') :
    AgentOk k' s where
  mem store hs := (h.mem store hs).next hk
  disk := by
    rcases h.disk with hnone | ⟨store, hfile, hbehind⟩
    · exact .inl hnone
    · exact .inr ⟨store, hfile, hbehind.next hk⟩
  answer hb p hphase hp := by
    have hans := h.answer hb p hphase hp
    rcases hk with rfl | hk
    · exact hans
    · have hle := hans.le
      exact ⟨hans.has, hans.positive, by omega, fun heq => by omega, hans.store⟩

theorem AgentOk.of_idle {k : Mark} {mem : Option StateStore} {disk : StoreDisk}
    (hmem : ∀ store, mem = some store → Behind k store.reported) (hdisk : FileBehind k disk.file) :
    AgentOk k ⟨mem, disk, .idle⟩ :=
  ⟨hmem, hdisk, fun _ _ h => by cases h⟩

section Steps

variable {ι : Type} [DecidableEq ι] {k : Mark} {w : FleetState ι}

theorem FleetInv.setAgent (h : FleetInv k w) (a : ι) {s : AgentState} (hs : AgentOk k s) :
    FleetInv k (w.setAgent a s) := by
  refine ⟨h.cloud, ?_⟩
  intro b
  by_cases hb : b = a
  · rw [hb, setAgent_same]
    exact hs
  · rw [setAgent_other w s hb]
    exact h.agents b

/-- A phase without an answer on its way. -/
theorem FleetInv.setPhase (h : FleetInv k w) (a : ι) {phase : SyncPhase}
    (hphase : ∀ hb, phase ≠ .answered hb) : FleetInv k (w.setPhase a phase) :=
  h.setAgent a ⟨(h.agents a).mem, (h.agents a).disk, fun hb _ he => absurd he (hphase hb)⟩

/-! ## §4 Steps of the control plane. -/

omit [DecidableEq ι] in
theorem FleetInv.operate (h : FleetInv k w) (op : Op) : ∃ k', FleetInv k' (w.operate op) := by
  unfold FleetState.operate
  cases hr : w.registry with
  | none => exact ⟨k, h⟩
  | some r =>
      have hk : mark r = k := h.cloud.registry r hr
      have hnext : k.Next (mark (op.apply r).2) := hk ▸ mark_apply op r
      refine ⟨mark (op.apply r).2, ⟨?_, ?_, ?_⟩, fun a => (h.agents a).next hnext⟩
      · intro hversion
        rcases hnext with hsame | hseq
        · rw [hsame] at hversion ⊢
          exact h.cloud.positive hversion
        · omega
      · intro r' hr'
        cases hr'
        rfl
      · show (((ControlPlane.mk r w.file).step op).file = none ∧ _) ∨
          ∃ r' : Inner, ((ControlPlane.mk r w.file).step op).file = some r'.file ∧ _
        rw [step_file]
        by_cases hpersists : (op.apply r).1 = true
        · rw [if_pos hpersists]
          exact .inr ⟨_, rfl, rfl⟩
        · -- nothing was written, and nothing that the file records has changed
          have hquiet : mark (op.apply r).2 = k :=
            (mark_apply_quiet (Bool.eq_false_iff.mpr hpersists)).trans hk
          rw [if_neg hpersists, hquiet]
          exact h.cloud.file

omit [DecidableEq ι] in
theorem FleetInv.restart (h : FleetInv k w) : FleetInv k { w with registry := load w.file } := by
  refine ⟨⟨h.cloud.positive, ?_, h.cloud.file⟩, h.agents⟩
  intro r' hr'
  rcases h.cloud.file with ⟨hnone, hk⟩ | ⟨r, hfile, hk⟩
  · rw [hnone] at hr'
    cases hr'
    exact hk.symm
  · rw [hfile] at hr'
    by_cases hfin : r.AllFinite
    · rw [load_file r hfin] at hr'
      cases hr'
      exact hk
    · rw [load_file_fails r hfin] at hr'
      cases hr'

/-! ## §5 Steps of an agent. -/

theorem FleetInv.register (h : FleetInv k w) (cfg : AgentConfig) (a : ι) (now : UInt64) (lost : Bool) :
    ∃ k', FleetInv k' (w.register cfg a now lost) := by
  unfold FleetState.register
  split
  · obtain ⟨k', h'⟩ := h.operate (.register now (registerRequest cfg _).args)
    refine ⟨k', h'.setPhase a ?_⟩
    intro hb
    split <;> exact nofun
  · exact ⟨k, h⟩

omit [DecidableEq ι] in
/-- The answer to a heartbeat says no more than the registry does, and no less than the agent. -/
theorem FleetInv.answer (h : FleetInv k w) {a : ι} {r : Inner} (hr : w.registry = some r)
    {now : UInt64} {req : HeartbeatRequest} {hb : HeartbeatResponse} {p : Policy}
    (hans : (serveHeartbeat r now req).1 = .ok hb) (hp : hb.policy = some p) :
    AnswerOk k (w.agents a).mem hb p := by
  have hk : mark r = k := h.cloud.registry r hr
  have hhb := serveHeartbeat_ok hans
  have hseq : hb.desiredSeq = k.seq := by rw [hhb, ← hk]; rfl
  have hversion : k.version = some p.version := by
    have hpolicy : r.policy = some p := by rw [hhb] at hp; exact hp
    rw [← hk]
    show r.policy.map _ = _
    rw [hpolicy]
    rfl
  have hpos : 0 < k.seq := h.cloud.positive (by rw [hversion]; exact Option.some_ne_none _)
  refine ⟨by rw [hhb], by omega, by omega, fun _ => hversion, ?_⟩
  intro s hs
  have hbehind := (h.agents a).mem s hs
  refine ⟨by rw [hseq]; exact hbehind.le, ?_⟩
  intro heq _
  have hlevel := hbehind.level (heq.trans hseq) hpos
  exact hversion.symm.trans hlevel

theorem FleetInv.heartbeat (h : FleetInv k w) (cfg : AgentConfig) (a : ι) (now : UInt64)
    (usage : ResourceUsage) (active : UInt64) (lost : Bool) :
    FleetInv k (w.heartbeat cfg a now usage active lost) := by
  unfold FleetState.heartbeat
  split
  · rename_i s r _ _ hr
    have hk : mark r = k := h.cloud.registry r hr
    have hquiet : ∀ req, mark (serveHeartbeat r now req).2 = k := by
      intro req
      rw [serveHeartbeat_registry]
      exact (mark_apply_quiet rfl).trans hk
    have hcloud : ∀ req, FleetInv k { w with registry := some (serveHeartbeat r now req).2 } := by
      intro req
      refine ⟨⟨h.cloud.positive, ?_, h.cloud.file⟩, h.agents⟩
      intro r' hr'
      cases hr'
      exact hquiet req
    refine (hcloud _).setAgent a ⟨(h.agents a).mem, (h.agents a).disk, ?_⟩
    intro hb p hphase hp
    exact h.answer hr (heartbeatPhase_answered hphase) hp
  · exact h

omit [DecidableEq ι] in
/-- The message an agent builds from an answer on its way has the answer's own seq. -/
theorem AnswerOk.seq {mem : Option StateStore} {hb : HeartbeatResponse} {p : Policy}
    (h : AnswerOk k mem hb p) (s : StateStore) : (desiredOf s hb p).seq = hb.desiredSeq :=
  Nat.max_eq_left h.positive

/-- What is on disk after a response was handled, completely or not. -/
theorem FileBehind.handled {s : StateStore} {d : DesiredState} {before after : Option (Contents Json)}
    (h : FileBehind k before) (hs : Behind k s.reported) (hd : Behind k (s.process d).reported)
    (hafter : FileAfter s d before after) : FileBehind k after := by
  rcases hafter with rfl | rfl | rfl
  · exact h
  · refine .inr ⟨s.track d, rfl, ?_⟩
    rw [StateStore.track_reported]
    exact hs
  · exact .inr ⟨s.process d, rfl, hd⟩

theorem FleetInv.finish (h : FleetInv k w) (a : ι) (faults : List (Fault StoreTear)) :
    FleetInv k (w.finish a faults) := by
  unfold FleetState.finish
  split
  · rename_i s hb hmem hphase
    have hagent := h.agents a
    have hs := hagent.mem s hmem
    refine h.setAgent a ?_
    by_cases hnone : hb.hasPolicy = true → hb.policy = none
    · rw [handleRun_no_policy hnone]
      refine .of_idle ?_ hagent.disk
      intro store hstore
      cases hstore
      exact hs
    · obtain ⟨hhas, hsome⟩ := Classical.not_imp.mp hnone
      obtain ⟨p, hp⟩ := Option.ne_none_iff_exists'.mp hsome
      have hans := hagent.answer hb p hphase hp
      have hseq := hans.seq s
      have hprocess : Behind k (s.process (desiredOf s hb p)).reported :=
        process_behind hs (by rw [hseq]; exact hans.le) (fun heq => hans.level (hseq.symm.trans heq))
      rcases handle_outcome hhas hp faults (w.agents a).disk with ⟨hdead, _, hfile⟩ |
          ⟨r, s', hlive, _, hhandled⟩
      · refine .of_idle ?_ (hagent.disk.handled hs hprocess hfile)
        intro store hstore
        cases hdead.symm.trans hstore
      · refine .of_idle ?_ (hagent.disk.handled hs hprocess hhandled.file)
        intro store hstore
        have hstore' : s' = store := Option.some.inj (hlive.symm.trans hstore)
        subst hstore'
        rcases hhandled.store with rfl | rfl
        · rw [StateStore.track_reported]
          exact hs
        · exact hprocess
  · exact h

theorem FleetInv.reopen (h : FleetInv k w) (a : ι) (faults : List (Fault StoreTear)) :
    FleetInv k (w.reopen a faults) := by
  unfold FleetState.reopen
  split
  · exact h
  · obtain ⟨hfile, hopen⟩ := open_outcome faults (w.agents a).disk
    have hdisk := (h.agents a).disk
    refine h.setAgent a (.of_idle ?_ (by rw [hfile]; exact hdisk))
    intro store hstore
    rcases hopen store hstore with ⟨_, rfl⟩ | ⟨contents, hcontents, hdec⟩
    · exact behind_default k
    · rcases hdisk with hnone | ⟨s, hs, hbehind⟩
      · cases hnone.symm.trans hcontents
      · have hwhole : contents = .whole s.json := Option.some.inj (hcontents.symm.trans hs)
        rw [hwhole, decodeStore_whole] at hdec
        cases hdec
        exact hbehind

/-! ## §6 Runs. -/

/-- **Every step of the fleet keeps the invariant**, at the same mark or at the next. -/
theorem FleetInv.step (cfg : ι → AgentConfig) (h : FleetInv k w) (e : FleetEvent ι) :
    ∃ k', FleetInv k' (w.step cfg e) := by
  cases e with
  | operation op => exact h.operate op
  | restart => exact ⟨k, h.restart⟩
  | register a now lost => exact h.register (cfg a) a now lost
  | heartbeat a now usage active lost => exact ⟨k, h.heartbeat (cfg a) a now usage active lost⟩
  | fail a => exact ⟨k, h.setPhase a nofun⟩
  | finish a faults => exact ⟨k, h.finish a faults⟩
  | crash a =>
      refine ⟨k, h.setAgent a (.of_idle ?_ (h.agents a).disk)⟩
      intro _ hstore
      cases hstore
  | reopen a faults => exact ⟨k, h.reopen a faults⟩

theorem fleetInv_after (cfg : ι → AgentConfig) (events : List (FleetEvent ι)) :
    ∃ k, FleetInv k (FleetState.after cfg events) := by
  induction events using List.reverseRecOn with
  | nil =>
      refine ⟨⟨none, 0⟩, ⟨fun h => absurd rfl h, ?_, .inl ⟨rfl, rfl⟩⟩, fun a => .of_idle ?_ (.inl rfl)⟩
      · intro r hr
        cases hr
        rfl
      · intro store hstore
        cases hstore
        exact behind_default _
  | append_singleton events e ih =>
      obtain ⟨k, hk⟩ := ih
      rw [after_snoc]
      exact hk.step cfg e

/-- A `sync_once` that returns `Ok` on an answer with a policy leaves the agent at its version. -/
theorem FleetInv.finish_version (h : FleetInv k w) {a : ι} {faults : List (Fault StoreTear)}
    {hb : HeartbeatResponse} {p : Policy} {b : Bool} (hphase : (w.agents a).phase = .answered hb)
    (hp : hb.policy = some p) (hok : w.replies a faults = [.ok b]) :
    ∃ s, ((w.finish a faults).agents a).mem = some s ∧ s.reported.policyVersion = p.version := by
  have hans := (h.agents a).answer hb p hphase hp
  cases hmem : (w.agents a).mem with
  | none =>
      -- no process, no answer
      unfold FleetState.replies at hok
      rw [hmem] at hok
      cases hok
  | some s =>
      unfold FleetState.replies at hok
      unfold FleetState.finish
      rw [hmem, hphase] at hok ⊢
      have hok' : handleReplies s hb faults (w.agents a).disk = [.ok b] := hok
      rcases handle_outcome hans.has hp faults (w.agents a).disk with ⟨_, hdead, _⟩ |
          ⟨r, s', hlive, hreplies, hhandled⟩
      · cases hdead.symm.trans hok'
      · have hr : r.mapError AgentError.state = .ok b :=
          (List.cons.inj (hreplies.symm.trans hok')).1
        cases r with
        | error e => cases hr
        | ok b' =>
            have hs' := (hhandled.ok b' rfl).1
            have hseq := hans.seq s
            refine ⟨s', ?_, ?_⟩
            · rw [setAgent_same]
              exact hlive
            · rw [hs']
              refine process_version (by rw [hseq]; exact hans.positive) ?_
              rw [hseq]
              exact hans.store s hmem

/-- **The fleet converges.** In every run, from an empty registry and fresh agents: a `sync_once` that
returns `Ok` after a heartbeat answered with policy `p` leaves the agent at `p`'s version, and no agent
is ever ahead of the registry. -/
theorem fleet_converges (cfg : ι → AgentConfig) (events : List (FleetEvent ι)) :
    (∀ a faults hb p b, ((FleetState.after cfg events).agents a).phase = .answered hb →
        hb.policy = some p → (FleetState.after cfg events).replies a faults = [.ok b] →
        ∃ s, ((FleetState.after cfg (events ++ [.finish a faults])).agents a).mem = some s ∧
          s.reported.policyVersion = p.version) ∧
      ∀ a s r, ((FleetState.after cfg events).agents a).mem = some s →
        (FleetState.after cfg events).registry = some r → s.reported.appliedSeq ≤ r.policySeq := by
  obtain ⟨k, hk⟩ := fleetInv_after cfg events
  constructor
  · intro a faults hb p b hphase hp hok
    rw [after_snoc]
    exact hk.finish_version hphase hp hok
  · intro a s r hmem hr
    have hmark : mark r = k := hk.cloud.registry r hr
    have hle := ((hk.agents a).mem s hmem).le
    rw [← hmark] at hle
    exact hle

end Steps

/-- One agent, one policy, one sync up to the heartbeat's answer. -/
def firstSync : List (FleetEvent Unit) :=
  [.operation (.setPolicy { Policy.default with version := 5 }), .register () 7 false,
    .heartbeat () 8 ⟨F64.zero, 0, 0, 0⟩ 0 false]

theorem fleet_converges_firstSync :
    (FleetState.after (fun _ => ⟨"edge-01", "dev-hw", "0.1.0"⟩) firstSync).replies () [] = [.ok true] ∧
      ∃ s, ((FleetState.after (fun _ => ⟨"edge-01", "dev-hw", "0.1.0"⟩)
          (firstSync ++ [.finish () []])).agents ()).mem = some s ∧
        s.reported.policyVersion = 5 := by
  have hreplies : (FleetState.after (fun _ => ⟨"edge-01", "dev-hw", "0.1.0"⟩) firstSync).replies ()
      [] = [.ok true] := by decide +kernel
  have hphase : ((FleetState.after (fun _ => ⟨"edge-01", "dev-hw", "0.1.0"⟩) firstSync).agents
      ()).phase = .answered ⟨5, some { Policy.default with version := 5 }, true, "", 1⟩ := by
    decide +kernel
  exact ⟨hreplies, (fleet_converges _ firstSync).1 () [] _ _ true hphase rfl hreplies⟩

end Edgewarden.Fleet
