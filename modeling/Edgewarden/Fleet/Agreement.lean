/-
# Edgewarden.Fleet.Agreement — whether devices that stand at one version serve one policy.

An agent decides by the VERSION of a policy whether to take it over, and the registry compares a push
only with the version that is current. So a version that is withdrawn and pushed again with other
contents reaches some agents and not others: those that stand at the version keep the old contents.

* `Pushed`: the policies an agent may have taken over in a run. A push counts if it changes the version,
  and the compiled default counts as pushed with version 0.
* `converged_agents_agree`: in every run in which no version is pushed with two contents, two agents whose
  latest `sync_once` returned `Ok` on the same policy have the same last-known-good policy.
  `reused_version_diverges` is a run in which a version is reused, and two agents that disagree.
-/
import Edgewarden.Agent.LastGood
import Edgewarden.Fleet.Convergence

namespace Edgewarden.Fleet

open Edgewarden.Agent Edgewarden.FaultIo Edgewarden.Registry Edgewarden.Serde Edgewarden.State

/-! ## §1 Pushes and syncs of a run. -/

section

variable {ι : Type} [DecidableEq ι]

/-- The policies that agents may have taken over: the compiled default, and every policy that was pushed
while another version was current. -/
inductive Pushed (cfg : ι → AgentConfig) : List (FleetEvent ι) → Policy → Prop
  | compiled (events : List (FleetEvent ι)) : Pushed cfg events .default
  | pushed {before after : List (FleetEvent ι)} {p : Policy} {r : Inner} :
      (FleetState.after cfg before).registry = some r → p.version ≠ r.policyVersion →
      Pushed cfg (before ++ .operation (.setPolicy p) :: after) p

/-- The event ends a `sync_once` of agent `a`, or its process, or starts it. -/
def FleetEvent.Ends (a : ι) : FleetEvent ι → Prop
  | .fail b => b = a
  | .finish b _ => b = a
  | .crash b => b = a
  | .reopen b _ => b = a
  | _ => False

instance (a : ι) (e : FleetEvent ι) : Decidable (e.Ends a) :=
  match e with
  | .fail b => inferInstanceAs (Decidable (b = a))
  | .finish b _ => inferInstanceAs (Decidable (b = a))
  | .crash b => inferInstanceAs (Decidable (b = a))
  | .reopen b _ => inferInstanceAs (Decidable (b = a))
  | .operation _ => .isFalse id
  | .restart => .isFalse id
  | .register _ _ _ => .isFalse id
  | .heartbeat _ _ _ _ _ => .isFalse id

/-- The latest `sync_once` of agent `a` returned `Ok`, on response `hb`. -/
inductive SyncedOn (cfg : ι → AgentConfig) (a : ι) (hb : HeartbeatResponse) :
    List (FleetEvent ι) → Prop
  | returned {events : List (FleetEvent ι)} {faults : List (Fault StoreTear)} {b : Bool} :
      ((FleetState.after cfg events).agents a).phase = .answered hb →
      (FleetState.after cfg events).replies a faults = [.ok b] →
      SyncedOn cfg a hb (events ++ [.finish a faults])
  | later {events : List (FleetEvent ι)} {e : FleetEvent ι} : SyncedOn cfg a hb events → ¬ e.Ends a →
      SyncedOn cfg a hb (events ++ [e])

variable {cfg : ι → AgentConfig} {events : List (FleetEvent ι)}

theorem Pushed.later {p : Policy} (h : Pushed cfg events p) (e : FleetEvent ι) :
    Pushed cfg (events ++ [e]) p := by
  cases h with
  | compiled _ => exact .compiled _
  | pushed hr hne =>
      rw [List.append_assoc]
      exact .pushed hr hne

theorem Pushed.mem {p : Policy} (h : Pushed cfg events p) :
    p = .default ∨ .operation (.setPolicy p) ∈ events := by
  cases h with
  | compiled _ => exact .inl rfl
  | pushed _ _ => exact .inr (List.mem_append_right _ List.mem_cons_self)

/-- What the last event adds. -/
theorem pushed_snoc {e : FleetEvent ι} {p : Policy} (h : Pushed cfg (events ++ [e]) p) :
    Pushed cfg events p ∨ ∃ r, e = .operation (.setPolicy p) ∧
      (FleetState.after cfg events).registry = some r ∧ p.version ≠ r.policyVersion := by
  generalize hall : events ++ [e] = all at h
  cases h with
  | compiled _ => exact .inl (.compiled _)
  | @pushed before after p r hr hne =>
      rcases List.eq_nil_or_concat' after with rfl | ⟨init, last, rfl⟩
      · obtain ⟨rfl, he⟩ := List.append_inj' hall rfl
        exact .inr ⟨r, List.singleton_inj.mp he, hr, hne⟩
      · rw [← List.cons_append, ← List.append_assoc] at hall
        obtain ⟨rfl, _⟩ := List.append_inj' hall rfl
        exact .inl (.pushed hr hne)

theorem SyncedOn.later_all {a : ι} {hb : HeartbeatResponse} (h : SyncedOn cfg a hb events)
    (more : List (FleetEvent ι)) (hmore : ∀ e ∈ more, ¬ e.Ends a) :
    SyncedOn cfg a hb (events ++ more) := by
  induction more using List.reverseRecOn with
  | nil => simpa using h
  | append_singleton more e ih =>
      rw [← List.append_assoc]
      refine (ih fun e' he' => hmore e' (List.mem_append_left _ he')).later ?_
      exact hmore e (List.mem_append_right _ (List.mem_singleton.mpr rfl))

end

/-! ## §2 The invariant. -/

/-- A store whose policy is one of `P`, reported under its own version. -/
structure StoreOf (P : Policy → Prop) (s : StateStore) : Prop where
  version : s.reported.policyVersion = s.lastGoodPolicy.version
  pushed : P s.lastGoodPolicy

/-- Nothing has been pushed that an agent could take over. -/
def OnlyDefault (P : Policy → Prop) : Prop := ∀ p, P p → p = .default

/-- The current policy of the registry: one of `P`, or a first push under version 0, which agents do not
tell from their compiled default. -/
structure Current (P : Policy → Prop) (cur : Option Policy) : Prop where
  absent : cur = none → OnlyDefault P
  present : ∀ p, cur = some p → P p ∨ (p.version = 0 ∧ OnlyDefault P)
  upstream : ∀ p, cur = some p → p.defaultUpstream ≠ ""

/-- The registry and its file have the same current policy. -/
structure CloudAt (cur : Option Policy) (registry : Option Inner) (file : Option Json) : Prop where
  registry : ∀ r, registry = some r → r.policy = cur
  file : (file = none ∧ cur = none) ∨ ∃ r : Inner, file = some r.file ∧ r.policy = cur

/-- A response on its way to an agent with store `mem`: its policy is one of `P`, or the agent stands at
its version already. -/
structure Flying (P : Policy → Prop) (mem : Option StateStore) (hb : HeartbeatResponse) : Prop where
  absent : hb.policy = none → ∀ s, mem = some s → s.lastGoodPolicy = .default
  present : ∀ p, hb.policy = some p →
    P p ∨ ∀ s, mem = some s → p.version = s.reported.policyVersion
  upstream : ∀ p, hb.policy = some p → p.defaultUpstream ≠ ""

structure AgentAt (P : Policy → Prop) (s : AgentState) : Prop where
  stores : Keeps (StoreOf P) ⟨s.mem, s.disk⟩
  answer : ∀ hb, s.phase = .answered hb → Flying P s.mem hb

structure AgreeInv {ι : Type} (P : Policy → Prop) (cur : Option Policy) (w : FleetState ι) : Prop where
  current : Current P cur
  cloud : CloudAt cur w.registry w.file
  agents : ∀ a, AgentAt P (w.agents a)

theorem AgentAt.mono {P P' : Policy → Prop} {s : AgentState} (h : AgentAt P s)
    (hP : ∀ p, P p → P' p) : AgentAt P' s where
  stores := h.stores.mono fun _ hs => ⟨hs.version, hP _ hs.pushed⟩
  answer hb hphase :=
    let hans := h.answer hb hphase
    ⟨hans.absent, fun p hp => (hans.present p hp).imp_left (hP p), hans.upstream⟩

theorem AgentAt.of_idle {P : Policy → Prop} {mem : Option StateStore} {disk : StoreDisk}
    (h : Keeps (StoreOf P) ⟨mem, disk⟩) : AgentAt P ⟨mem, disk, .idle⟩ :=
  ⟨h, fun _ hphase => by cases hphase⟩

theorem storeOf_track {P : Policy → Prop} {s : StateStore} (h : StoreOf P s) (d : DesiredState) :
    StoreOf P (s.track d) := by
  refine ⟨?_, ?_⟩
  · rw [s.track_reported, s.track_lastGoodPolicy]
    exact h.version
  · rw [s.track_lastGoodPolicy]
    exact h.pushed

/-- A response on its way leaves a store whose policy is one of `P`. -/
theorem Flying.process {P : Policy → Prop} {s : StateStore} {hb : HeartbeatResponse} {p : Policy}
    (h : Flying P (some s) hb) (hp : hb.policy = some p) (hs : StoreOf P s) :
    StoreOf P (s.process (desiredOf s hb p)) := by
  have hpolicy : (desiredOf s hb p).policy = p := by
    show { p with defaultUpstream := _ } = p
    rw [if_neg (h.upstream p hp)]
  rcases process_lastGoodPolicy s (desiredOf s hb p) with ⟨hrep, hgood⟩ |
      ⟨hne, hrep, hgood⟩
  · refine ⟨?_, ?_⟩
    · rw [hrep, hgood]
      exact hs.version
    · rw [hgood]
      exact hs.pushed
  · rw [hpolicy] at hne hrep hgood
    refine ⟨by rw [hrep, hgood], ?_⟩
    rw [hgood]
    rcases h.present p hp with hP | hsame
    · exact hP
    · exact absurd (hsame s rfl) hne

section Steps

variable {ι : Type} [DecidableEq ι] {P : Policy → Prop} {cur : Option Policy} {w : FleetState ι}

theorem AgreeInv.setAgent (h : AgreeInv P cur w) (a : ι) {s : AgentState} (hs : AgentAt P s) :
    AgreeInv P cur (w.setAgent a s) := by
  refine ⟨h.current, h.cloud, ?_⟩
  intro b
  by_cases hb : b = a
  · rw [hb, setAgent_same]
    exact hs
  · rw [setAgent_other w s hb]
    exact h.agents b

theorem AgreeInv.setPhase (h : AgreeInv P cur w) (a : ι) {phase : SyncPhase}
    (hphase : ∀ hb, phase ≠ .answered hb) : AgreeInv P cur (w.setPhase a phase) :=
  h.setAgent a ⟨(h.agents a).stores, fun hb he => absurd he (hphase hb)⟩

/-! ## §3 Steps of the control plane. -/

omit [DecidableEq ι] in
/-- An operation that leaves the policy. -/
theorem AgreeInv.operate_same (h : AgreeInv P cur w) {op : Op}
    (hsame : ∀ r, w.registry = some r → (op.apply r).2.policy = r.policy) :
    AgreeInv P cur (w.operate op) := by
  unfold FleetState.operate
  cases hr : w.registry with
  | none => exact h
  | some r =>
      have hpolicy : (op.apply r).2.policy = cur := (hsame r hr).trans (h.cloud.registry r hr)
      refine ⟨h.current, ⟨?_, ?_⟩, h.agents⟩
      · intro r' hr'
        cases hr'
        exact hpolicy
      · show (((ControlPlane.mk r w.file).step op).file = none ∧ _) ∨
          ∃ r' : Inner, ((ControlPlane.mk r w.file).step op).file = some r'.file ∧ _
        rw [step_file]
        split
        · exact .inr ⟨_, rfl, hpolicy⟩
        · exact h.cloud.file

omit [DecidableEq ι] in
/-- A push that the registry accepts. -/
theorem AgreeInv.operate_push (h : AgreeInv P cur w) {r : Inner} {p : Policy} {P' : Policy → Prop}
    (hr : w.registry = some r) (hne : (r.policy.map fun q => q.version) ≠ some p.version)
    (hP : ∀ q, P q → P' q) (hcurrent : Current P' (some p)) :
    AgreeInv P' (some p) (w.operate (.setPolicy p)) := by
  have happly : (Op.setPolicy p).apply r = (true, { r with policySeq := r.policySeq + 1, policy := some p }) := by
    show r.setPolicy p = _
    unfold Inner.setPolicy
    rw [if_neg hne]
  unfold FleetState.operate
  rw [hr]
  refine ⟨hcurrent, ⟨?_, ?_⟩, fun a => (h.agents a).mono hP⟩
  · intro r' hr'
    cases hr'
    show ((Op.setPolicy p).apply r).2.policy = some p
    rw [happly]
  · refine .inr ⟨((Op.setPolicy p).apply r).2, ?_, ?_⟩
    · show ((ControlPlane.mk r w.file).step (.setPolicy p)).file = _
      rw [step_file]
      show (if ((Op.setPolicy p).apply r).1 then _ else _) = _
      rw [happly]
      rfl
    · rw [happly]

omit [DecidableEq ι] in
theorem AgreeInv.restart (h : AgreeInv P cur w) : AgreeInv P cur { w with registry := load w.file } := by
  refine ⟨h.current, ⟨?_, h.cloud.file⟩, h.agents⟩
  intro r' hr'
  rcases h.cloud.file with ⟨hnone, hcur⟩ | ⟨r, hfile, hcur⟩
  · rw [hnone] at hr'
    cases hr'
    exact hcur.symm
  · rw [hfile] at hr'
    by_cases hfin : r.AllFinite
    · rw [load_file r hfin] at hr'
      cases hr'
      exact hcur
    · rw [load_file_fails r hfin] at hr'
      cases hr'

/-! ## §4 Steps of an agent. -/

theorem AgreeInv.register (h : AgreeInv P cur w) (cfg : AgentConfig) (a : ι) (now : UInt64)
    (lost : Bool) : AgreeInv P cur (w.register cfg a now lost) := by
  unfold FleetState.register
  split
  · refine (h.operate_same ?_).setPhase a ?_
    · exact fun r _ => rfl
    · intro hb
      split <;> exact nofun
  · exact h

theorem heartbeat_policy (r : Inner) (now : UInt64) (req : HeartbeatRequest) :
    (serveHeartbeat r now req).2.policy = r.policy := by
  rw [serveHeartbeat_registry]
  exact ((Op.heartbeat now req.update).apply_sameRoster rfl).policy

omit [DecidableEq ι] in
/-- An answer is on its way as soon as it is given. -/
theorem AgreeInv.flying (h : AgreeInv P cur w) {a : ι} {r : Inner} (hr : w.registry = some r)
    {now : UInt64} {req : HeartbeatRequest} {hb : HeartbeatResponse}
    (hans : (serveHeartbeat r now req).1 = .ok hb) : Flying P (w.agents a).mem hb := by
  have hpolicy : hb.policy = cur := by
    rw [serveHeartbeat_ok hans]
    exact h.cloud.registry r hr
  refine ⟨?_, ?_, ?_⟩
  · intro hnone s hs
    exact h.current.absent (hpolicy.symm.trans hnone) _ ((h.agents a).stores.mem s hs).pushed
  · intro p hp
    rcases h.current.present p (hpolicy.symm.trans hp) with hP | ⟨hzero, honly⟩
    · exact .inl hP
    · refine .inr fun s hs => ?_
      have hstore := (h.agents a).stores.mem s hs
      rw [hstore.version, honly _ hstore.pushed, hzero]
      rfl
  · exact fun p hp => h.current.upstream p (hpolicy.symm.trans hp)

theorem AgreeInv.heartbeat (h : AgreeInv P cur w) (cfg : AgentConfig) (a : ι) (now : UInt64)
    (usage : ResourceUsage) (active : UInt64) (lost : Bool) :
    AgreeInv P cur (w.heartbeat cfg a now usage active lost) := by
  unfold FleetState.heartbeat
  split
  · rename_i s r _ _ hr
    have hcloud : ∀ req, AgreeInv P cur { w with registry := some (serveHeartbeat r now req).2 } := by
      intro req
      refine ⟨h.current, ⟨?_, h.cloud.file⟩, h.agents⟩
      intro r' hr'
      cases hr'
      exact (heartbeat_policy r now req).trans (h.cloud.registry r hr)
    refine (hcloud _).setAgent a ⟨(h.agents a).stores, ?_⟩
    intro hb hphase
    exact h.flying hr (heartbeatPhase_answered hphase)
  · exact h

theorem AgreeInv.finish (h : AgreeInv P cur w) (a : ι) (faults : List (Fault StoreTear)) :
    AgreeInv P cur (w.finish a faults) := by
  unfold FleetState.finish
  split
  · rename_i s hb hmem hphase
    have hstores := (h.agents a).stores
    have hflying := (h.agents a).answer hb hphase
    rw [hmem] at hstores hflying
    have hs : StoreOf P s := hstores.mem s rfl
    refine h.setAgent a (.of_idle ?_)
    exact hstores.handled (storeOf_track hs) (fun p _ hp => hflying.process hp hs) faults
  · exact h

theorem storeOf_fresh (hdefault : P .default) : StoreOf P .fresh := ⟨rfl, hdefault⟩

theorem AgreeInv.reopen (h : AgreeInv P cur w) (hdefault : P .default) (a : ι)
    (faults : List (Fault StoreTear)) : AgreeInv P cur (w.reopen a faults) := by
  unfold FleetState.reopen
  split
  · exact h
  · exact h.setAgent a (.of_idle ((h.agents a).stores.opened (storeOf_fresh hdefault) faults))

/-! ## §5 Runs. -/

/-- Every push of the run names an upstream. -/
def UpstreamsGiven (events : List (FleetEvent ι)) : Prop :=
  ∀ p, .operation (.setPolicy p) ∈ events → p.defaultUpstream ≠ ""

variable {cfg : ι → AgentConfig} {events : List (FleetEvent ι)}

/-- An event that pushes nothing new. -/
theorem pushed_same {e : FleetEvent ι} (h : ∀ p r, e = .operation (.setPolicy p) →
      (FleetState.after cfg events).registry = some r → p.version = r.policyVersion) :
    Pushed cfg (events ++ [e]) = Pushed cfg events := by
  funext p
  refine propext ⟨fun hp => ?_, fun hp => hp.later e⟩
  rcases pushed_snoc hp with hp | ⟨r, he, hr, hne⟩
  · exact hp
  · exact absurd (h p r he hr) hne

/-- A push of the version that is served changes something only as the first push. -/
theorem policy_none_of_served {r : Inner} {v : UInt64}
    (hne : (r.policy.map fun q => q.version) ≠ some v) (hversion : v = r.policyVersion) :
    r.policy = none := by
  by_contra hsome
  obtain ⟨q, hq⟩ := Option.ne_none_iff_exists'.mp hsome
  rw [Inner.policyVersion, hq] at hversion
  rw [hq] at hne
  exact hne (congrArg some hversion.symm)

theorem setPolicy_policy_same {r : Inner} {p : Policy}
    (h : (r.policy.map fun q => q.version) = some p.version) : (r.setPolicy p).2.policy = r.policy := by
  unfold Inner.setPolicy
  rw [if_pos h]

theorem AgreeInv.setPolicy {p : Policy}
    (h : AgreeInv (Pushed cfg events) cur (FleetState.after cfg events)) (hp : p.defaultUpstream ≠ "") :
    ∃ cur', AgreeInv (Pushed cfg (events ++ [.operation (.setPolicy p)])) cur'
      ((FleetState.after cfg events).operate (.setPolicy p)) := by
  cases hr : (FleetState.after cfg events).registry with
  | none =>
      rw [pushed_same (fun _ _ _ hr' => (by simp [hr] at hr'))]
      exact ⟨cur, h.operate_same fun r hr' => (by simp [hr] at hr')⟩
  | some r =>
      have hquiet : p.version = r.policyVersion →
          Pushed cfg (events ++ [.operation (.setPolicy p)]) = Pushed cfg events := by
        intro hversion
        refine pushed_same fun p' r' he hr' => ?_
        cases he
        cases Option.some.inj (hr.symm.trans hr')
        exact hversion
      by_cases hsame : (r.policy.map fun q => q.version) = some p.version
      · -- the registry returns early
        have hversion : p.version = r.policyVersion := by
          unfold Inner.policyVersion
          rw [hsame]
          rfl
        rw [hquiet hversion]
        refine ⟨cur, h.operate_same fun r' hr' => ?_⟩
        cases Option.some.inj (hr.symm.trans hr')
        exact setPolicy_policy_same hsame
      · refine ⟨some p, h.operate_push hr hsame (fun q hq => hq.later _) ⟨fun hc => (by cases hc), ?_, ?_⟩⟩
        · intro q hq
          cases hq
          by_cases hversion : p.version = r.policyVersion
          · -- the first push, under the version that agents start with
            have hnone : r.policy = none := policy_none_of_served hsame hversion
            have honly := h.current.absent ((h.cloud.registry r hr).symm.trans hnone)
            rw [hquiet hversion]
            refine .inr ⟨?_, honly⟩
            rw [hversion, Inner.policyVersion, hnone]
            rfl
          · have hpushed : Pushed cfg (events ++ .operation (.setPolicy p) :: []) p := .pushed hr hversion
            exact .inl hpushed
        · intro q hq
          cases hq
          exact hp

theorem AgreeInv.operation {op : Op}
    (h : AgreeInv (Pushed cfg events) cur (FleetState.after cfg events))
    (hp : ∀ p, op = .setPolicy p → p.defaultUpstream ≠ "") :
    ∃ cur', AgreeInv (Pushed cfg (events ++ [.operation op])) cur'
      ((FleetState.after cfg events).operate op) := by
  cases op with
  | setPolicy p => exact h.setPolicy (hp p rfl)
  | setDesiredSoftware version =>
      rw [pushed_same (fun _ _ he _ => (by cases he))]
      refine ⟨cur, h.operate_same fun r _ => ?_⟩
      show (r.setDesiredSoftware version).2.policy = r.policy
      unfold Inner.setDesiredSoftware
      split <;> rfl
  | register now args =>
      rw [pushed_same (fun _ _ he _ => (by cases he))]
      exact ⟨cur, h.operate_same fun r _ => rfl⟩
  | heartbeat now u =>
      rw [pushed_same (fun _ _ he _ => (by cases he))]
      exact ⟨cur, h.operate_same fun r _ => ((Op.heartbeat now u).apply_sameRoster rfl).policy⟩

/-- **Every step of the fleet keeps the invariant.** -/
theorem AgreeInv.step {e : FleetEvent ι}
    (h : AgreeInv (Pushed cfg events) cur (FleetState.after cfg events))
    (hp : ∀ p, e = .operation (.setPolicy p) → p.defaultUpstream ≠ "") :
    ∃ cur', AgreeInv (Pushed cfg (events ++ [e])) cur' ((FleetState.after cfg events).step cfg e) := by
  cases e with
  | operation op => exact h.operation fun p hop => hp p (by rw [hop])
  | restart =>
      rw [pushed_same (fun _ _ he _ => (by cases he))]
      exact ⟨cur, h.restart⟩
  | register a now lost =>
      rw [pushed_same (fun _ _ he _ => (by cases he))]
      exact ⟨cur, h.register (cfg a) a now lost⟩
  | heartbeat a now usage active lost =>
      rw [pushed_same (fun _ _ he _ => (by cases he))]
      exact ⟨cur, h.heartbeat (cfg a) a now usage active lost⟩
  | fail a =>
      rw [pushed_same (fun _ _ he _ => (by cases he))]
      exact ⟨cur, h.setPhase a nofun⟩
  | finish a faults =>
      rw [pushed_same (fun _ _ he _ => (by cases he))]
      exact ⟨cur, h.finish a faults⟩
  | crash a =>
      rw [pushed_same (fun _ _ he _ => (by cases he))]
      refine ⟨cur, h.setAgent a (.of_idle ⟨?_, (h.agents a).stores.file⟩)⟩
      intro _ hs
      cases hs
  | reopen a faults =>
      rw [pushed_same (fun _ _ he _ => (by cases he))]
      exact ⟨cur, h.reopen (.compiled events) a faults⟩

theorem agreeInv_after (cfg : ι → AgentConfig) (h : UpstreamsGiven events) :
    ∃ cur, AgreeInv (Pushed cfg events) cur (FleetState.after cfg events) := by
  induction events using List.reverseRecOn with
  | nil =>
      have honly : OnlyDefault (Pushed cfg ([] : List (FleetEvent ι))) := by
        intro p hp
        generalize hnil : ([] : List (FleetEvent ι)) = events at hp
        cases hp with
        | compiled _ => rfl
        | pushed _ _ => simp at hnil
      refine ⟨none, ⟨fun _ => honly, fun _ hp => (by cases hp), fun _ hp => (by cases hp)⟩,
        ⟨fun r hr => ?_, .inl ⟨rfl, rfl⟩⟩, fun a => .of_idle ⟨fun s hs => ?_, .inl rfl⟩⟩
      · cases hr
        rfl
      · cases hs
        exact storeOf_fresh (.compiled [])
  | append_singleton events e ih =>
      obtain ⟨cur, hinv⟩ := ih fun p hp => h p (List.mem_append_left _ hp)
      rw [after_snoc]
      exact hinv.step fun p he => h p (by rw [he]; exact List.mem_append_right _ (List.mem_singleton.mpr rfl))

/-! ## §6 Agents that have synced. -/

theorem setPhase_mem (w : FleetState ι) (a b : ι) (phase : SyncPhase) :
    ((w.setPhase b phase).agents a).mem = (w.agents a).mem := by
  unfold FleetState.setPhase
  by_cases hb : a = b
  · subst hb
    rw [setAgent_same]
  · rw [setAgent_other _ _ hb]

omit [DecidableEq ι] in
theorem operate_agents (w : FleetState ι) (op : Op) : (w.operate op).agents = w.agents := by
  unfold FleetState.operate
  split <;> rfl

/-- An event that does not end a sync of agent `a` leaves its store. -/
theorem step_mem {a : ι} {e : FleetEvent ι} (h : ¬ e.Ends a) :
    ((w.step cfg e).agents a).mem = (w.agents a).mem := by
  cases e with
  | operation op => exact congrArg (fun f => (f a).mem) (operate_agents w op)
  | restart => rfl
  | register b now lost =>
      show ((w.register (cfg b) b now lost).agents a).mem = _
      unfold FleetState.register
      split
      · rw [setPhase_mem, operate_agents]
      · rfl
  | heartbeat b now usage active lost =>
      show ((w.heartbeat (cfg b) b now usage active lost).agents a).mem = _
      unfold FleetState.heartbeat
      split
      · rw [setPhase_mem]
      · rfl
  | fail b => exact setPhase_mem w a b .idle
  | finish b faults =>
      show ((w.finish b faults).agents a).mem = _
      unfold FleetState.finish
      split
      · rw [setAgent_other _ _ (Ne.symm h)]
      · rfl
  | crash b =>
      show ((w.setAgent b _).agents a).mem = _
      rw [setAgent_other _ _ (Ne.symm h)]
  | reopen b faults =>
      show ((w.reopen b faults).agents a).mem = _
      unfold FleetState.reopen
      split
      · rfl
      · rw [setAgent_other _ _ (Ne.symm h)]

/-- An answer without a policy leaves the store. -/
theorem finish_no_policy {a : ι} {faults : List (Fault StoreTear)} {hb : HeartbeatResponse} {s : StateStore}
    (hmem : (w.agents a).mem = some s) (hphase : (w.agents a).phase = .answered hb)
    (hnone : hb.policy = none) : ((w.finish a faults).agents a).mem = some s := by
  unfold FleetState.finish
  rw [hmem, hphase]
  show ((w.setAgent a _).agents a).mem = some s
  rw [setAgent_same, handleRun_no_policy (fun _ => hnone)]

/-- Where an agent stands that has synced on response `hb`. -/
theorem SyncedOn.store {a : ι} {hb : HeartbeatResponse} (h : SyncedOn cfg a hb events)
    (hgiven : UpstreamsGiven events) :
    ∃ s, ((FleetState.after cfg events).agents a).mem = some s ∧
      (∀ p, hb.policy = some p → s.reported.policyVersion = p.version) ∧
      (hb.policy = none → s.lastGoodPolicy = .default) := by
  induction h with
  | @returned events faults b hphase hok =>
      have hgiven' : UpstreamsGiven events := fun p hp => hgiven p (List.mem_append_left _ hp)
      rw [after_snoc]
      cases hp : hb.policy with
      | some p =>
          obtain ⟨k, hk⟩ := fleetInv_after cfg events
          obtain ⟨s, hs, hversion⟩ := hk.finish_version hphase hp hok
          refine ⟨s, hs, ?_, fun hc => (by cases hc)⟩
          intro q hq
          rw [← Option.some.inj hq]
          exact hversion
      | none =>
          obtain ⟨cur, hinv⟩ := agreeInv_after cfg hgiven'
          cases hmem : ((FleetState.after cfg events).agents a).mem with
          | none =>
              unfold FleetState.replies at hok
              rw [hmem] at hok
              cases hok
          | some s =>
              refine ⟨s, finish_no_policy hmem hphase hp, fun _ hc => (by cases hc), fun _ => ?_⟩
              exact ((hinv.agents a).answer hb hphase).absent hp s hmem
  | @later events e _ hends ih =>
      rw [after_snoc, step_mem hends]
      exact ih fun p hp => hgiven p (List.mem_append_left _ hp)

/-- No version is pushed with two contents; version 0 belongs to the compiled default. -/
def VersionsFixed (cfg : ι → AgentConfig) (events : List (FleetEvent ι)) : Prop :=
  ∀ p q, Pushed cfg events p → Pushed cfg events q → p.version = q.version → p = q

/-- **Converged devices agree.** In every run in which pushes name an upstream and no version is pushed
with two contents, whatever fails, dies, restarts or stays offline: two agents whose latest `sync_once`
returned `Ok` on responses with the same policy have the same last-known-good policy. -/
theorem converged_agents_agree (cfg : ι → AgentConfig) (events : List (FleetEvent ι)) (a b : ι)
    (hba hbb : HeartbeatResponse) (hgiven : UpstreamsGiven events) (hfixed : VersionsFixed cfg events)
    (ha : SyncedOn cfg a hba events) (hb : SyncedOn cfg b hbb events) (hsame : hba.policy = hbb.policy) :
    ∃ s s', ((FleetState.after cfg events).agents a).mem = some s ∧
      ((FleetState.after cfg events).agents b).mem = some s' ∧
      s.lastGoodPolicy = s'.lastGoodPolicy := by
  obtain ⟨s, hs, hversion, hdefault⟩ := ha.store hgiven
  obtain ⟨s', hs', hversion', hdefault'⟩ := hb.store hgiven
  obtain ⟨cur, hinv⟩ := agreeInv_after cfg hgiven
  have hstore := (hinv.agents a).stores.mem s hs
  have hstore' := (hinv.agents b).stores.mem s' hs'
  refine ⟨s, s', hs, hs', ?_⟩
  cases hp : hba.policy with
  | none => rw [hdefault hp, hdefault' (hsame.symm.trans hp)]
  | some p =>
      refine hfixed _ _ hstore.pushed hstore'.pushed ?_
      rw [← hstore.version, ← hstore'.version, hversion p hp, hversion' p (hsame.symm.trans hp)]

end Steps

/-! ## §7 Two devices. -/

/-- Two devices, told apart by their ids. -/
def twoDevices (a : Bool) : AgentConfig := ⟨if a then "edge-01" else "edge-02", "dev-hw", "0.1.0"⟩

def push (version : UInt64) (maxConnections : UInt32) : FleetEvent Bool :=
  .operation (.setPolicy { Policy.default with version := version, maxConnections := maxConnections })

/-- A cycle of a device, up to its response. -/
def exchangeOf (a : Bool) : List (FleetEvent Bool) :=
  [.register a 7 false, .heartbeat a 8 ⟨F64.zero, 0, 0, 0⟩ 0 false]

/-- The response with version 1. -/
def versionOne (maxConnections : UInt32) (seq : Nat) : HeartbeatResponse :=
  ⟨1, some { Policy.default with version := 1, maxConnections := maxConnections }, true, "", seq⟩

/-- Version 1 is pushed, and the first device asks for it. -/
def firstRollout : List (FleetEvent Bool) := push 1 100 :: exchangeOf true

/-- Both devices have asked for it. -/
def plainRollout : List (FleetEvent Bool) := firstRollout ++ [.finish true []] ++ exchangeOf false

/-- Version 1 is withdrawn for version 2 and pushed again with another limit while the first device is
offline. It then asks again. -/
def reusedVersion : List (FleetEvent Bool) :=
  firstRollout ++ [.finish true []] ++ [push 2 200, push 1 300] ++ exchangeOf true

/-- The second device asks too. -/
def reusedRollout : List (FleetEvent Bool) := reusedVersion ++ [.finish true []] ++ exchangeOf false

theorem versionsFixed_plainRollout :
    VersionsFixed twoDevices (plainRollout ++ [.finish false []]) := by
  have hpushed : ∀ p, Pushed twoDevices (plainRollout ++ [.finish false []]) p →
      p = .default ∨ p = { Policy.default with version := 1, maxConnections := 100 } := by
    intro p hp
    rcases hp.mem with rfl | hmem
    · exact .inl rfl
    · refine .inr ?_
      simpa [plainRollout, firstRollout, push, exchangeOf] using hmem
  intro p q hp hq hversion
  rcases hpushed p hp with rfl | rfl <;> rcases hpushed q hq with rfl | rfl
  · rfl
  · simp [Policy.default] at hversion
  · simp [Policy.default] at hversion
  · rfl

theorem converged_agents_agree_plainRollout :
    ∃ s s', ((FleetState.after twoDevices (plainRollout ++ [.finish false []])).agents true).mem = some s ∧
      ((FleetState.after twoDevices (plainRollout ++ [.finish false []])).agents false).mem = some s' ∧
      s.lastGoodPolicy = s'.lastGoodPolicy := by
  refine converged_agents_agree twoDevices (plainRollout ++ [.finish false []]) true false
    (versionOne 100 1) (versionOne 100 1) ?_ versionsFixed_plainRollout ?_ ?_ rfl
  · intro p hp
    have hp' : p = { Policy.default with version := 1, maxConnections := 100 } := by
      simpa [plainRollout, firstRollout, push, exchangeOf] using hp
    rw [hp']
    decide
  · have hreturned : SyncedOn twoDevices true (versionOne 100 1) (firstRollout ++ [.finish true []]) :=
      .returned (b := true) (by decide +kernel) (by decide +kernel)
    exact hreturned.later_all (exchangeOf false ++ [.finish false []]) (by decide)
  · exact .returned (b := true) (by decide +kernel) (by decide +kernel)

/-- Both devices have synced on version 1 with limit 300; the first one still serves limit 100. -/
theorem reused_version_diverges :
    UpstreamsGiven (reusedRollout ++ [.finish false []]) ∧
      SyncedOn twoDevices true (versionOne 300 3) (reusedRollout ++ [.finish false []]) ∧
      SyncedOn twoDevices false (versionOne 300 3) (reusedRollout ++ [.finish false []]) ∧
      ¬ ∃ s s', ((FleetState.after twoDevices (reusedRollout ++ [.finish false []])).agents true).mem = some s ∧
        ((FleetState.after twoDevices (reusedRollout ++ [.finish false []])).agents false).mem = some s' ∧
        s.lastGoodPolicy = s'.lastGoodPolicy := by
  refine ⟨?_, ?_, ?_, ?_⟩
  · intro p hp
    have hp' : p = { Policy.default with version := 1, maxConnections := 100 } ∨
        p = { Policy.default with version := 2, maxConnections := 200 } ∨
        p = { Policy.default with version := 1, maxConnections := 300 } := by
      simpa [reusedRollout, reusedVersion, firstRollout, push, exchangeOf] using hp
    rcases hp' with rfl | rfl | rfl <;> decide
  · have hreturned : SyncedOn twoDevices true (versionOne 300 3) (reusedVersion ++ [.finish true []]) :=
      .returned (b := false) (by decide +kernel) (by decide +kernel)
    exact hreturned.later_all (exchangeOf false ++ [.finish false []]) (by decide)
  · exact .returned (b := true) (by decide +kernel) (by decide +kernel)
  · rintro ⟨s, s', hs, hs', heq⟩
    have hlimits : (((FleetState.after twoDevices (reusedRollout ++ [.finish false []])).agents true).mem.map
          fun s => s.lastGoodPolicy.maxConnections) = some 100 ∧
        (((FleetState.after twoDevices (reusedRollout ++ [.finish false []])).agents false).mem.map
          fun s => s.lastGoodPolicy.maxConnections) = some 300 := by decide +kernel
    rw [hs, hs'] at hlimits
    obtain ⟨h₁, h₂⟩ := hlimits
    simp only [Option.map_some, Option.some.injEq] at h₁ h₂
    rw [heq, h₂] at h₁
    revert h₁
    decide

end Edgewarden.Fleet
