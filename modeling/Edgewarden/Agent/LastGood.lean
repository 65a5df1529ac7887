/-
# Edgewarden.Agent.LastGood — one agent over many cycles, and the policy it falls back on.

When the cloud is gone the dataplane serves `last_good_policy`, from memory or, after a restart, from
the state file. A cycle persists the whole store at two points, each of which may fail or be cut.

* §1 is the whole of `sync_once`: three steps over the network, then the handling of the response. The
  network is an arbitrary `Link`, new in each cycle.
* §2 is a run: cycles, crashes and reopenings in any order. A crash inside a cycle is a fault of that
  cycle, any other crash an event.
* `last_known_good` is the result over all runs: the reported version is the version of the policy, the
  policy was received, and a cycle without a response does nothing.
* `versionZero_ignored_iff`: `docs/failure-model.md` has a policy of version 0 "treated as no-op; reported
  version unchanged". Nothing tests for it: it is applied like any other when it is newer and the version
  reported is not 0 already (`versionZero_applied`).
-/
import Edgewarden.Agent.Sync
import Mathlib.Data.List.Induction

namespace Edgewarden.Agent

open Edgewarden.FaultIo Edgewarden.Registry Edgewarden.Serde Edgewarden.State

/-! ## §1 A cycle. -/

/-- What the network and the control plane make of one cycle. -/
structure Link where
  connect : Except AgentError Unit
  register : RegisterRequest → Except AgentError RegisterResponse
  heartbeat : HeartbeatRequest → Except AgentError HeartbeatResponse

/-- One call of `sync_once`: its link, what it measures, and the faults of the state file. -/
structure Cycle where
  link : Link
  usage : ResourceUsage
  activeConnections : UInt64
  faults : List (Fault StoreTear)

/-- `sync_once` up to the heartbeat response. -/
def Cycle.exchange (c : Cycle) (cfg : AgentConfig) (s : StateStore) :
    Except AgentError HeartbeatResponse := do
  c.link.connect
  let _ ← c.link.register (registerRequest cfg s)
  c.link.heartbeat (heartbeatRequest cfg s c.usage c.activeConnections)

/-- `sync_once`. -/
def Cycle.syncOnce (c : Cycle) (cfg : AgentConfig) (s : StateStore) :
    Prog (Option StateStore) StoreReq (Except AgentError Bool × Option StateStore) :=
  match c.exchange cfg s with
  | .error e => .done (.error e, some s)
  | .ok hb => handle s hb

/-! ## §2 Runs. -/

abbrev AgentWorld := World (Option StateStore) StoreDisk

/-- A running agent without a state file. -/
def freshAgent : AgentWorld := ⟨some .fresh, ⟨none, none⟩⟩

inductive AgentEvent
  | sync (c : Cycle)
  | crash
  | reopen (faults : List (Fault StoreTear))

/-- The events and the world of one cycle of a running agent. -/
def Cycle.run (c : Cycle) (cfg : AgentConfig) (s : StateStore) (disk : StoreDisk) :
    List (Event (Option StateStore) StoreReq StoreTear StoreDisk (Except AgentError Bool)) ×
      AgentWorld :=
  (c.syncOnce cfg s).exec storeDevice none (some s) c.faults disk

/-- What `sync_once` returned, if the process lived to return. -/
def Cycle.replies (c : Cycle) (cfg : AgentConfig) (s : StateStore) (disk : StoreDisk) :
    List (Except AgentError Bool) :=
  (c.run cfg s disk).1.filterMap Event.reply

def agentStep (cfg : AgentConfig) (w : AgentWorld) : AgentEvent → AgentWorld
  | .sync c =>
      match w.mem with
      | some s => (c.run cfg s w.disk).2
      | none => w
  | .crash => ⟨none, w.disk⟩
  | .reopen faults =>
      match w.mem with
      | some _ => w
      | none => openRun faults w.disk

/-- The agent after a sequence of events. -/
def agentAfter (cfg : AgentConfig) (events : List AgentEvent) : AgentWorld :=
  events.foldl (agentStep cfg) freshAgent

theorem agentAfter_snoc (cfg : AgentConfig) (events : List AgentEvent) (e : AgentEvent) :
    agentAfter cfg (events ++ [e]) = agentStep cfg (agentAfter cfg events) e := by
  unfold agentAfter
  rw [List.foldl_append]
  rfl

section Cycle

variable {c : Cycle} {cfg : AgentConfig} {s : StateStore}

/-- A cycle without a response. -/
theorem Cycle.run_error {e : AgentError} (h : c.exchange cfg s = .error e) (disk : StoreDisk) :
    c.run cfg s disk = ([.ret (some s) (some s) (.error e) disk], ⟨some s, disk⟩) := by
  unfold Cycle.run Cycle.syncOnce
  rw [h]
  rfl

/-- A cycle with a response. -/
theorem Cycle.run_ok {hb : HeartbeatResponse} (h : c.exchange cfg s = .ok hb) (disk : StoreDisk) :
    c.run cfg s disk = handleRun s hb c.faults disk := by
  unfold Cycle.run Cycle.syncOnce handleRun
  rw [h]

end Cycle

/-! ## §3 What a step can put where. -/

/-- The stores of an agent, in memory and in its state file, are all good. -/
structure Keeps (Good : StateStore → Prop) (w : AgentWorld) : Prop where
  mem : ∀ s, w.mem = some s → Good s
  file : w.disk.file = none ∨ ∃ s : StateStore, w.disk.file = some (.whole s.json) ∧ Good s

theorem Keeps.mono {Good Good' : StateStore → Prop} {w : AgentWorld} (h : Keeps Good w)
    (hgood : ∀ s, Good s → Good' s) : Keeps Good' w where
  mem s hs := hgood s (h.mem s hs)
  file := h.file.imp_right fun ⟨s, hfile, hs⟩ => ⟨s, hfile, hgood s hs⟩

/-- What reaches a state file is one of the stores on the way. -/
theorem fileAfter_good {Good : StateStore → Prop} {s : StateStore} {d : DesiredState}
    {before after : Option (Contents Json)} (h : FileAfter s d before after)
    (hbefore : before = none ∨ ∃ s : StateStore, before = some (.whole s.json) ∧ Good s)
    (htrack : Good (s.track d)) (hprocess : Good (s.process d)) :
    after = none ∨ ∃ s : StateStore, after = some (.whole s.json) ∧ Good s := by
  rcases h with rfl | h | h
  · exact hbefore
  · exact .inr ⟨_, h, htrack⟩
  · exact .inr ⟨_, h, hprocess⟩

/-- Opening an agent. -/
theorem Keeps.opened {Good : StateStore → Prop} {mem : Option StateStore} {disk : StoreDisk}
    (h : Keeps Good ⟨mem, disk⟩) (hfresh : Good .fresh) (faults : List (Fault StoreTear)) :
    Keeps Good (openRun faults disk) := by
  obtain ⟨hfile, hopened⟩ := open_outcome faults disk
  refine ⟨?_, by rw [hfile]; exact h.file⟩
  intro s hs
  rcases hopened s hs with ⟨_, rfl⟩ | ⟨contents, hcontents, hdecode⟩
  · exact hfresh
  · rcases h.file with hnone | ⟨s₀, hs₀, hgood⟩
    · cases hnone.symm.trans hcontents
    · have hs₀' : contents = .whole s₀.json := Option.some.inj (hcontents.symm.trans hs₀)
      rw [hs₀', decodeStore_whole] at hdecode
      exact Except.ok.inj hdecode ▸ hgood

/-- Handling a response, whatever fails. -/
theorem Keeps.handled {Good : StateStore → Prop} {s : StateStore} {disk : StoreDisk}
    {hb : HeartbeatResponse} (h : Keeps Good ⟨some s, disk⟩) (htrack : ∀ d, Good (s.track d))
    (hprocess : ∀ p, hb.hasPolicy = true → hb.policy = some p → Good (s.process (desiredOf s hb p)))
    (faults : List (Fault StoreTear)) : Keeps Good (handleRun s hb faults disk).2 := by
  by_cases hpolicy : hb.hasPolicy = true → hb.policy = none
  · rw [handleRun_no_policy hpolicy]
    exact h
  · obtain ⟨hhas, hne⟩ := Classical.not_imp.mp hpolicy
    obtain ⟨p, hp⟩ := Option.ne_none_iff_exists'.mp hne
    have hgood := hprocess p hhas hp
    have hgood' := htrack (desiredOf s hb p)
    rcases handle_outcome hhas hp faults disk with ⟨hdead, _, hfile⟩ | ⟨r, s', hlive, _, hhandled⟩
    · refine ⟨fun s' hs' => ?_, fileAfter_good hfile h.file hgood' hgood⟩
      cases hdead.symm.trans hs'
    · refine ⟨fun s'' hs'' => ?_, fileAfter_good hhandled.file h.file hgood' hgood⟩
      rw [← Option.some.inj (hlive.symm.trans hs'')]
      rcases hhandled.store with heq | heq
      · exact heq ▸ hgood'
      · exact heq ▸ hgood

/-- **A step keeps every property of stores that tracking keeps and that the handling of the step's own
response keeps.** -/
theorem Keeps.step {Good : StateStore → Prop} {cfg : AgentConfig} {w : AgentWorld} {e : AgentEvent}
    (h : Keeps Good w) (hfresh : Good .fresh) (htrack : ∀ s d, Good s → Good (s.track d))
    (hprocess : ∀ c s hb p, e = .sync c → w.mem = some s → c.exchange cfg s = .ok hb →
      hb.hasPolicy = true → hb.policy = some p → Good s → Good (s.process (desiredOf s hb p))) :
    Keeps Good (agentStep cfg w e) := by
  cases e with
  | crash => exact ⟨fun _ hs => (by cases hs), h.file⟩
  | reopen faults =>
      unfold agentStep
      cases hmem : w.mem with
      | some s => exact h
      | none => exact h.opened hfresh faults
  | sync c =>
      unfold agentStep
      cases hmem : w.mem with
      | none => exact h
      | some s =>
          have hs : Good s := h.mem s hmem
          have hstart : Keeps Good ⟨some s, w.disk⟩ := ⟨fun s' hs' => Option.some.inj hs' ▸ hs, h.file⟩
          show Keeps Good (c.run cfg s w.disk).2
          cases hex : c.exchange cfg s with
          | error err =>
              rw [Cycle.run_error hex]
              exact hstart
          | ok hb =>
              rw [Cycle.run_ok hex]
              exact hstart.handled (fun d => htrack s d hs)
                (fun p hhas hp => hprocess c s hb p rfl hmem hex hhas hp hs) c.faults

/-! ## §4 The last-known-good policy. -/

/-- What the agent makes of a received policy when its own is `previous`. -/
def completed (previous p : Policy) : Policy :=
  { p with
    defaultUpstream := if p.defaultUpstream = "" then previous.defaultUpstream else p.defaultUpstream }

/-- Where the last-known-good policy of a run can come from: it is the compiled default, or a heartbeat
response of the run carried it, completed by the last-known-good policy of that time. -/
inductive Adopted (cfg : AgentConfig) : List AgentEvent → Policy → Prop
  | compiled (events : List AgentEvent) : Adopted cfg events .default
  | received {before after : List AgentEvent} {c : Cycle} {s : StateStore} {hb : HeartbeatResponse}
      {p : Policy} : (agentAfter cfg before).mem = some s → c.exchange cfg s = .ok hb →
      hb.policy = some p →
      Adopted cfg (before ++ .sync c :: after) (completed s.lastGoodPolicy p)

theorem Adopted.later {cfg : AgentConfig} {events : List AgentEvent} {p : Policy}
    (h : Adopted cfg events p) (e : AgentEvent) : Adopted cfg (events ++ [e]) p := by
  cases h with
  | compiled _ => exact .compiled _
  | received hmem hex hp =>
      rw [List.append_assoc]
      exact .received hmem hex hp

/-- The store reports the version of its last-known-good policy, and that policy comes from `From`. -/
structure PolicyFrom (From : Policy → Prop) (s : StateStore) : Prop where
  version : s.reported.policyVersion = s.lastGoodPolicy.version
  source : From s.lastGoodPolicy

/-- The policy was received. -/
abbrev LastGood (cfg : AgentConfig) (events : List AgentEvent) (s : StateStore) : Prop :=
  PolicyFrom (Adopted cfg events) s

/-- Handling a message leaves report and policy, or takes both from a message with another version. -/
theorem process_lastGoodPolicy (s : StateStore) (d : DesiredState) :
    ((s.process d).reported = s.reported ∧ (s.process d).lastGoodPolicy = s.lastGoodPolicy) ∨
      d.policy.version ≠ s.reported.policyVersion ∧
        (s.process d).reported.policyVersion = d.policy.version ∧
        (s.process d).lastGoodPolicy = d.policy := by
  by_cases happly : ∃ p, s.reported.diff d = .applyPolicy p
  · obtain ⟨p, hdiff⟩ := happly
    obtain ⟨rfl, _, hne⟩ := diff_eq_applyPolicy_iff.mp hdiff
    rw [StateStore.process_applied hdiff]
    exact .inr ⟨hne, applyPolicy_version d.policy d.seq, rfl⟩
  · rw [StateStore.process_kept fun p hdiff => happly ⟨p, hdiff⟩]
    exact .inl ⟨s.track_reported d, s.track_lastGoodPolicy d⟩

section Sources

variable {From From' : Policy → Prop} {s : StateStore}

theorem PolicyFrom.mono (h : PolicyFrom From s) (hfrom : ∀ p, From p → From' p) : PolicyFrom From' s :=
  ⟨h.version, hfrom _ h.source⟩

theorem policyFrom_fresh (hdefault : From .default) : PolicyFrom From .fresh := ⟨rfl, hdefault⟩

/-- The stores that the handling of a message persists. -/
theorem PolicyFrom.track (h : PolicyFrom From s) (d : DesiredState) : PolicyFrom From (s.track d) where
  version := by
    rw [s.track_reported, s.track_lastGoodPolicy]
    exact h.version
  source := by
    rw [s.track_lastGoodPolicy]
    exact h.source

theorem PolicyFrom.process {d : DesiredState} (h : PolicyFrom From s) (hd : From d.policy) :
    PolicyFrom From (s.process d) := by
  rcases process_lastGoodPolicy s d with ⟨hrep, hgood⟩ | ⟨_, hrep, hgood⟩
  · refine ⟨?_, ?_⟩
    · rw [hrep, hgood]
      exact h.version
    · rw [hgood]
      exact h.source
  · refine ⟨?_, ?_⟩
    · rw [hrep, hgood]
    · rw [hgood]
      exact hd

/-- **A step keeps the sources of policies**, if the default and what the step itself receives are among them. -/
theorem Keeps.step_policyFrom {cfg : AgentConfig} {w : AgentWorld} {e : AgentEvent} (h : Keeps (PolicyFrom From) w)
    (hdefault : From .default)
    (hreceived : ∀ c s hb p, e = .sync c → w.mem = some s → c.exchange cfg s = .ok hb → hb.policy = some p →
      From (completed s.lastGoodPolicy p)) :
    Keeps (PolicyFrom From) (agentStep cfg w e) := by
  refine h.step (policyFrom_fresh hdefault) (fun s d hs => hs.track d) ?_
  intro c s hb p he hmem hex _ hp hs
  exact hs.process (hreceived c s hb p he hmem hex hp)

end Sources

theorem LastGood.later {cfg : AgentConfig} {events : List AgentEvent} {s : StateStore} (h : LastGood cfg events s)
    (e : AgentEvent) : LastGood cfg (events ++ [e]) s :=
  h.mono fun _ hp => hp.later e

theorem lastGood_fresh (cfg : AgentConfig) (events : List AgentEvent) : LastGood cfg events .fresh :=
  policyFrom_fresh (.compiled events)

theorem lastGood_after (cfg : AgentConfig) (events : List AgentEvent) :
    Keeps (LastGood cfg events) (agentAfter cfg events) := by
  induction events using List.reverseRecOn with
  | nil => exact ⟨fun s hs => Option.some.inj hs ▸ lastGood_fresh cfg [], .inl rfl⟩
  | append_singleton events e ih =>
      rw [agentAfter_snoc]
      have hlater : Keeps (LastGood cfg (events ++ [e])) (agentAfter cfg events) :=
        ih.mono fun s hs => hs.later e
      refine hlater.step_policyFrom (.compiled _) ?_
      rintro c s hb p rfl hmem hex hp
      exact .received hmem hex hp

/-- **Partition tolerance of last-known-good.** In every run of an agent, whatever fails and wherever it
dies: the store in memory and the one in the state file report the version of their last-known-good
policy, and that policy is the compiled default or was received; and a cycle that gets no heartbeat
response leaves memory and disk as they are. -/
theorem last_known_good (cfg : AgentConfig) (events : List AgentEvent) :
    (∀ s, (agentAfter cfg events).mem = some s → LastGood cfg events s) ∧
      (∀ contents, (agentAfter cfg events).disk.file = some contents →
        ∃ s, decodeStore contents = .ok s ∧ LastGood cfg events s) ∧
      ∀ s c err, (agentAfter cfg events).mem = some s → c.exchange cfg s = .error err →
        agentAfter cfg (events ++ [.sync c]) = agentAfter cfg events := by
  have h := lastGood_after cfg events
  refine ⟨h.mem, ?_, ?_⟩
  · intro contents hcontents
    rcases h.file with hnone | ⟨s, hfile, hs⟩
    · cases hnone.symm.trans hcontents
    · rw [← Option.some.inj (hfile.symm.trans hcontents)]
      exact ⟨s, decodeStore_whole s, hs⟩
  · intro s c err hmem hex
    rw [agentAfter_snoc]
    unfold agentStep
    simp only [hmem, Cycle.run_error hex]
    rw [← hmem]

/-! ## §5 Policies of version 0. -/

/-- The version reported and the policy in force are as they were. -/
structure Undisturbed (s s' : StateStore) : Prop where
  version : s'.reported.policyVersion = s.reported.policyVersion
  policy : s'.lastGoodPolicy = s.lastGoodPolicy

section VersionZero

variable {s : StateStore} {d : DesiredState}

theorem track_undisturbed (s : StateStore) (d : DesiredState) : Undisturbed s (s.track d) :=
  ⟨by rw [s.track_reported], s.track_lastGoodPolicy d⟩

theorem process_undisturbed_iff (hzero : d.policy.version = 0) :
    Undisturbed s (s.process d) ↔ d.seq ≤ s.reported.appliedSeq ∨ s.reported.policyVersion = 0 := by
  rw [← not_iff_not, not_or, Nat.not_le]
  constructor
  · intro hdisturbed
    by_contra hguard
    refine hdisturbed ?_
    rw [StateStore.process_kept]
    · exact track_undisturbed s d
    · intro p hdiff
      obtain ⟨-, hnewer, hne⟩ := diff_eq_applyPolicy_iff.mp hdiff
      exact hguard ⟨hnewer, fun h => hne (hzero.trans h.symm)⟩
  · rintro ⟨hnewer, hne⟩ hkept
    have hdiff := diff_newer hnewer fun h => hne (h.symm.trans hzero)
    have hversion := hkept.version
    rw [StateStore.process_applied hdiff] at hversion
    have happlied : ((s.track d).applied d.policy d.seq).reported.policyVersion = d.policy.version :=
      applyPolicy_version d.policy d.seq
    exact hne (hversion.symm.trans (happlied.trans hzero))

/-- **When a policy of version 0 is a no-op.** In every run of an agent and for every message with a policy of
version 0: handling it leaves the version reported and the last-known-good policy if and only if its sequence
number is not newer or the version reported is 0; and then a cycle that receives it leaves both, whatever
fails in it. -/
theorem versionZero_ignored_iff (cfg : AgentConfig) (events : List AgentEvent) (s : StateStore)
    (hmem : (agentAfter cfg events).mem = some s) (d : DesiredState) (hzero : d.policy.version = 0) :
    (∀ disk, Undisturbed s ((processMessage d).quiet storeDevice s disk).1.2 ↔
        d.seq ≤ s.reported.appliedSeq ∨ s.reported.policyVersion = 0) ∧
      (d.seq ≤ s.reported.appliedSeq ∨ s.reported.policyVersion = 0 →
        ∀ c hb p, c.exchange cfg s = .ok hb → hb.hasPolicy = true → hb.policy = some p →
          desiredOf s hb p = d → ∀ s', (agentAfter cfg (events ++ [.sync c])).mem = some s' →
            Undisturbed s s') := by
  refine ⟨?_, ?_⟩
  · intro disk
    rw [quiet_processMessage]
    exact process_undisturbed_iff hzero
  · intro hguard c hb p hex hhas hp hd s' hs'
    have hrun : agentAfter cfg (events ++ [.sync c]) = (handleRun s hb c.faults (agentAfter cfg events).disk).2 := by
      rw [agentAfter_snoc, ← Cycle.run_ok hex]
      simp only [agentStep, hmem]
    rw [hrun] at hs'
    rcases handle_outcome hhas hp c.faults (agentAfter cfg events).disk with
      ⟨hdead, -, -⟩ | ⟨r, s'', hlive, -, hhandled⟩
    · cases hdead.symm.trans hs'
    · rw [← Option.some.inj (hlive.symm.trans hs')]
      rw [hd] at hhandled
      rcases hhandled.store with rfl | rfl
      · exact track_undisturbed s d
      · exact (process_undisturbed_iff hzero).mpr hguard

end VersionZero

/-- A cycle whose heartbeat carries the default policy under this version and sequence number. -/
def carrying (version : UInt64) (seq : Nat) : Cycle where
  link :=
    { connect := .ok ()
      register := fun _ => .ok ⟨true, version, some { Policy.default with version := version }, ""⟩
      heartbeat := fun _ => .ok ⟨version, some { Policy.default with version := version }, true, "", seq⟩ }
  usage := ⟨F64.zero, 0, 0, 0⟩
  activeConnections := 0
  faults := []

/-- A policy of version 0 as the desired state of a response. -/
def versionZero (seq : Nat) : DesiredState := ⟨seq, .default, ""⟩

/-- An agent that has applied version 5 at seq 3 ignores it at seq 2. -/
theorem versionZero_ignored_stale :
    ∃ s, (agentAfter anEdge [.sync (carrying 5 3)]).mem = some s ∧ s.reported = ⟨5, "", 3⟩ ∧
      Undisturbed s ((processMessage (versionZero 2)).quiet storeDevice s ⟨none, none⟩).1.2 :=
  ⟨_, rfl, rfl, ((versionZero_ignored_iff anEdge [.sync (carrying 5 3)] _ rfl (versionZero 2) rfl).1 _).mpr
    (.inl (by decide))⟩

/-- An agent on version 5 applies it: version 0 is reported, and is the version of the policy in force. -/
theorem versionZero_applied :
    ∃ s s', (agentAfter anEdge [.sync (carrying 5 1)]).mem = some s ∧ s.reported.policyVersion = 5 ∧
      (agentAfter anEdge [.sync (carrying 5 1), .sync (carrying 0 2)]).mem = some s' ∧
      s'.reported.policyVersion = 0 ∧ s'.lastGoodPolicy.version = 0 ∧
      ((processMessage (versionZero 2)).quiet storeDevice s
        (agentAfter anEdge [.sync (carrying 5 1)]).disk).1.2 = s' ∧
      ¬ Undisturbed s s' := by
  refine ⟨_, _, rfl, rfl, rfl, rfl, rfl, rfl, ?_⟩
  intro h
  exact absurd h.version (by decide)

end Edgewarden.Agent
