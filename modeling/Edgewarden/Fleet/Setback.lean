/-
# Edgewarden.Fleet.Setback — a control plane that comes back behind its agents.

A control plane without `CONTROL_PERSIST_PATH` comes back empty, and one whose snapshot was lost or is old
(`Registry.PowerLoss`) comes back with an older registry. Its seqs then start below those that the agents have
applied, and an agent drops every message whose seq is not above its `applied_seq`.

* `muted_after_setback`: an agent that has applied seq `n` ignores a control plane that comes back with seq `b`
  for the next `n - b` changes, whatever they are, whatever happens to the other agents, and also if it is
  restarted itself; its `sync_once` returns `Ok(false)` all the while. It is bound by the first answer beyond.

Where the registry is never set back no agent is ever ahead of it (`Fleet.Convergence`).
-/
import Edgewarden.Agent.Run
import Edgewarden.Fleet.Agreement
import Edgewarden.Registry.Roster

namespace Edgewarden.Fleet

open Edgewarden.Agent Edgewarden.FaultIo Edgewarden.Registry Edgewarden.Serde Edgewarden.State

/-! ## §1 Setbacks. -/

section

variable {ι : Type} [DecidableEq ι]

omit [DecidableEq ι] in
/-- The control plane comes up with what it finds in place of its snapshot. -/
def FleetState.setBack (w : FleetState ι) (file : Option Json) : FleetState ι :=
  { w with registry := load file, file := file }

/-- The fleet after a sequence of events from any state on. -/
def FleetState.runFrom (cfg : ι → AgentConfig) (w : FleetState ι) (events : List (FleetEvent ι)) : FleetState ι :=
  events.foldl (FleetState.step cfg) w

theorem runFrom_snoc (cfg : ι → AgentConfig) (w : FleetState ι) (events : List (FleetEvent ι)) (e : FleetEvent ι) :
    w.runFrom cfg (events ++ [e]) = (w.runFrom cfg events).step cfg e := by
  unfold FleetState.runFrom
  rw [List.foldl_append]
  rfl

end

/-- The operations that raise the seq, if they change anything. -/
def Op.isChange : Op → Bool
  | .setPolicy _ => true
  | .setDesiredSoftware _ => true
  | _ => false

def FleetEvent.isChange {ι : Type} : FleetEvent ι → Bool
  | .operation op => Op.isChange op
  | _ => false

/-- How often the operator asks for something else. -/
def changes {ι : Type} (events : List (FleetEvent ι)) : Nat := events.countP FleetEvent.isChange

/-- There is no snapshot, or one of a registry at seq `b`. -/
def FoundAt (b : Nat) (file : Option Json) : Prop :=
  (file = none ∧ b = 0) ∨ ∃ r : Inner, file = some r.file ∧ r.policySeq = b

/-! ## §2 The control plane. -/

/-- Neither the registry nor its snapshot is above seq `k`. -/
structure Low (k : Nat) (registry : Option Inner) (file : Option Json) : Prop where
  registry : ∀ r, registry = some r → r.policySeq ≤ k
  file : file = none ∨ ∃ r : Inner, file = some r.file ∧ r.policySeq ≤ k

section Cloud

variable {k : Nat} {registry : Option Inner} {file : Option Json}

theorem Low.mono {k' : Nat} (h : Low k registry file) (hk : k ≤ k') : Low k' registry file where
  registry r hr := Nat.le_trans (h.registry r hr) hk
  file := h.file.imp_right fun ⟨r, hfile, hr⟩ => ⟨r, hfile, Nat.le_trans hr hk⟩

theorem Low.load (hfile : file = none ∨ ∃ r : Inner, file = some r.file ∧ r.policySeq ≤ k) :
    Low k (load file) file := by
  refine ⟨?_, hfile⟩
  intro r' hr'
  rcases hfile with rfl | ⟨r, rfl, hr⟩
  · rw [← Option.some.inj hr']
    exact Nat.zero_le _
  · rw [load_eq_restore hr']
    exact hr

theorem low_of_foundAt (h : FoundAt k file) : Low k (load file) file := by
  refine .load ?_
  rcases h with ⟨hnone, -⟩ | ⟨r, hfile, hr⟩
  · exact .inl hnone
  · exact .inr ⟨r, hfile, Nat.le_of_eq hr⟩

/-- An operation raises the seq by one at most, and only if it is a change. -/
theorem apply_policySeq_le (op : Op) (r : Inner) :
    (op.apply r).2.policySeq ≤ r.policySeq + (Op.isChange op).toNat := by
  have heff := op.effect r
  generalize op.apply r = result at heff
  cases heff with
  | kept _ => exact Nat.le_add_right _ _
  | registered now args => exact Nat.le_refl _
  | refreshed now u d _ => exact Nat.le_refl _
  | policy p _ => exact Nat.le_refl _
  | software version _ => exact Nat.le_refl _

theorem Low.operate {ι : Type} {w : FleetState ι} (h : Low k w.registry w.file) (op : Op) :
    Low (k + (Op.isChange op).toNat) (w.operate op).registry (w.operate op).file := by
  unfold FleetState.operate
  cases hr : w.registry with
  | none =>
      rw [hr] at h
      simp only [hr]
      exact h.mono (Nat.le_add_right _ _)
  | some r =>
      have hle : (op.apply r).2.policySeq ≤ k + (Op.isChange op).toNat := by
        have hone := apply_policySeq_le op r
        have hk := h.registry r hr
        omega
      refine ⟨?_, ?_⟩
      · intro r' hr'
        rw [← Option.some.inj hr', step_inner]
        exact hle
      · show ((ControlPlane.mk r w.file).step op).file = none ∨
          ∃ r' : Inner, ((ControlPlane.mk r w.file).step op).file = some r'.file ∧ _
        rw [step_file]
        by_cases hp : (op.apply r).1 = true
        · rw [if_pos hp]
          exact .inr ⟨_, rfl, hle⟩
        · rw [if_neg hp]
          exact (h.mono (Nat.le_add_right _ _)).file

end Cloud

section Steps

variable {ι : Type} [DecidableEq ι] {cfg : ι → AgentConfig} {w : FleetState ι} {k : Nat}

/-- What an event does to the seqs of the control plane. -/
theorem Low.step (h : Low k w.registry w.file) (e : FleetEvent ι) :
    Low (k + e.isChange.toNat) (w.step cfg e).registry (w.step cfg e).file := by
  cases e with
  | operation op => exact h.operate op
  | restart => exact .load h.file
  | register a now lost =>
      show Low k (w.register (cfg a) a now lost).registry (w.register (cfg a) a now lost).file
      unfold FleetState.register
      split
      · rename_i s _ _
        exact h.operate (.register now (registerRequest (cfg a) s).args)
      · exact h
  | heartbeat a now usage active lost =>
      show Low k (w.heartbeat (cfg a) a now usage active lost).registry
        (w.heartbeat (cfg a) a now usage active lost).file
      unfold FleetState.heartbeat
      split
      · rename_i s r _ _ hr
        refine ⟨?_, h.file⟩
        intro r' hr'
        rw [← Option.some.inj hr', serveHeartbeat_registry]
        exact Nat.le_trans (apply_policySeq_le _ r) (h.registry r hr)
      · exact h
  | fail a => exact h
  | finish a faults =>
      show Low k (w.finish a faults).registry (w.finish a faults).file
      unfold FleetState.finish
      split <;> exact h
  | crash a => exact h
  | reopen a faults =>
      show Low k (w.reopen a faults).registry (w.reopen a faults).file
      unfold FleetState.reopen
      split <;> exact h

/-! ## §3 The agent. -/

/-- A store with the report `rep` and the policy `good`. -/
structure StandsAt (rep : ReportedState) (good : Policy) (s : StateStore) : Prop where
  reported : s.reported = rep
  lastGoodPolicy : s.lastGoodPolicy = good

/-- An agent that stands there, also if it is restarted, and to which nothing newer is on its way. -/
structure Muted (rep : ReportedState) (good : Policy) (st : AgentState) : Prop where
  mem : ∀ s, st.mem = some s → StandsAt rep good s
  file : ∃ s : StateStore, st.disk.file = some (.whole s.json) ∧ StandsAt rep good s
  answer : ∀ hb, st.phase = .answered hb → hb.desiredSeq ≤ rep.appliedSeq

variable {rep : ReportedState} {good : Policy} {st : AgentState} {s : StateStore}

theorem StandsAt.track (h : StandsAt rep good s) (d : DesiredState) : StandsAt rep good (s.track d) :=
  ⟨(s.track_reported d).trans h.reported, (s.track_lastGoodPolicy d).trans h.lastGoodPolicy⟩

/-- A message that is not above the applied seq asks for nothing. -/
theorem StandsAt.not_applied (h : StandsAt rep good s) (hpos : 0 < rep.appliedSeq) {hb : HeartbeatResponse}
    (hseq : hb.desiredSeq ≤ rep.appliedSeq) (p q : Policy) : s.reported.diff (desiredOf s hb p) ≠ .applyPolicy q := by
  intro hdiff
  have hlt := (diff_eq_applyPolicy_iff.mp hdiff).2.1
  have hmax : (desiredOf s hb p).seq = max hb.desiredSeq 1 := rfl
  rw [h.reported, hmax] at hlt
  omega

theorem StandsAt.process (h : StandsAt rep good s) (hpos : 0 < rep.appliedSeq) {hb : HeartbeatResponse}
    (hseq : hb.desiredSeq ≤ rep.appliedSeq) (p : Policy) : StandsAt rep good (s.process (desiredOf s hb p)) := by
  rw [StateStore.process_kept (h.not_applied hpos hseq p)]
  exact h.track _

theorem Muted.setPhase (h : Muted rep good st) {phase : SyncPhase}
    (hphase : ∀ hb, phase = .answered hb → hb.desiredSeq ≤ rep.appliedSeq) :
    Muted rep good { st with phase := phase } :=
  ⟨h.mem, h.file, hphase⟩

theorem Muted.idle (h : Muted rep good st) : Muted rep good { st with phase := .idle } :=
  h.setPhase fun _ hc => by cases hc

theorem Muted.crash (h : Muted rep good st) : Muted rep good ⟨none, st.disk, .idle⟩ :=
  ⟨fun _ hs => (by cases hs), h.file, fun _ hc => (by cases hc)⟩

/-- The handling of an answer that is not newer, whatever fails. -/
theorem Muted.handled (h : Muted rep good st) (hpos : 0 < rep.appliedSeq) {hb : HeartbeatResponse}
    (hmem : st.mem = some s) (hphase : st.phase = .answered hb) (faults : List (Fault StoreTear)) :
    Muted rep good ⟨(handleRun s hb faults st.disk).2.mem, (handleRun s hb faults st.disk).2.disk, .idle⟩ := by
  have hs := h.mem s hmem
  by_cases hnone : hb.hasPolicy = true → hb.policy = none
  · rw [handleRun_no_policy hnone]
    refine ⟨?_, h.file, fun _ hc => (by cases hc)⟩
    intro s' hs'
    rw [← Option.some.inj hs']
    exact hs
  · obtain ⟨hhas, hsome⟩ := Classical.not_imp.mp hnone
    obtain ⟨p, hp⟩ := Option.ne_none_iff_exists'.mp hsome
    have htrack := hs.track (desiredOf s hb p)
    have hprocess := hs.process hpos (h.answer hb hphase) p
    have hfile : ∀ after, FileAfter s (desiredOf s hb p) st.disk.file after →
        ∃ s' : StateStore, after = some (.whole s'.json) ∧ StandsAt rep good s' := by
      rintro after (rfl | rfl | rfl)
      · exact h.file
      · exact ⟨_, rfl, htrack⟩
      · exact ⟨_, rfl, hprocess⟩
    rcases handle_outcome hhas hp faults st.disk with ⟨hdead, _, hafter⟩ | ⟨r, s', hlive, _, hhandled⟩
    · refine ⟨?_, hfile _ hafter, fun _ hc => (by cases hc)⟩
      intro s' hs'
      cases hdead.symm.trans hs'
    · refine ⟨?_, hfile _ hhandled.file, fun _ hc => (by cases hc)⟩
      intro s'' hs''
      obtain rfl : s' = s'' := Option.some.inj (hlive.symm.trans hs'')
      rcases hhandled.store with rfl | rfl
      · exact htrack
      · exact hprocess

theorem Muted.reopened (h : Muted rep good st) (faults : List (Fault StoreTear)) :
    Muted rep good ⟨(openRun faults st.disk).mem, (openRun faults st.disk).disk, .idle⟩ := by
  obtain ⟨hkept, hopen⟩ := open_outcome faults st.disk
  obtain ⟨s₁, hfile, hs₁⟩ := h.file
  refine ⟨?_, ⟨s₁, hkept.trans hfile, hs₁⟩, fun _ hc => (by cases hc)⟩
  intro s' hs'
  rcases hopen s' hs' with ⟨hnone, _⟩ | ⟨contents, hcontents, hdecode⟩
  · cases hfile.symm.trans hnone
  · obtain rfl : Contents.whole s₁.json = contents := Option.some.inj (hfile.symm.trans hcontents)
    rw [decodeStore_whole] at hdecode
    rw [← Except.ok.inj hdecode]
    exact hs₁

/-- The answer of a control plane that is not above the agent. -/
theorem Low.answer {registry : Option Inner} {file : Option Json} (h : Low k registry file) {r : Inner}
    (hr : registry = some r) {now : UInt64} {req : HeartbeatRequest} {lost : Bool} {hb : HeartbeatResponse}
    (hphase : heartbeatPhase (serveHeartbeat r now req).1 lost = .answered hb) : hb.desiredSeq ≤ k := by
  rw [serveHeartbeat_ok (heartbeatPhase_answered hphase)]
  exact h.registry r hr

theorem muted_setAgent {a b : ι} (h : Muted rep good (w.agents a)) {st' : AgentState}
    (hst : b = a → Muted rep good st') : Muted rep good ((w.setAgent b st').agents a) := by
  by_cases hab : a = b
  · subst hab
    rw [setAgent_same]
    exact hst rfl
  · rw [setAgent_other _ _ hab]
    exact h

/-- **One event.** While the control plane is not above the agent, the agent stays where it is. -/
theorem Muted.step {a : ι} (h : Muted rep good (w.agents a)) (hlow : Low k w.registry w.file)
    (hk : k ≤ rep.appliedSeq) (hpos : 0 < rep.appliedSeq) (e : FleetEvent ι) :
    Muted rep good ((w.step cfg e).agents a) := by
  cases e with
  | operation op =>
      show Muted rep good ((w.operate op).agents a)
      rw [operate_agents]
      exact h
  | restart => exact h
  | register b now lost =>
      show Muted rep good ((w.register (cfg b) b now lost).agents a)
      unfold FleetState.register
      split
      · have hagents : ∀ op, Muted rep good ((w.operate op).agents a) := by
          intro op
          rw [operate_agents]
          exact h
        refine muted_setAgent (hagents _) ?_
        rintro rfl
        refine (hagents _).setPhase ?_
        intro hb hc
        split at hc <;> cases hc
      · exact h
  | heartbeat b now usage active lost =>
      show Muted rep good ((w.heartbeat (cfg b) b now usage active lost).agents a)
      unfold FleetState.heartbeat
      split
      · rename_i s r _ _ hr
        refine muted_setAgent h ?_
        rintro rfl
        refine h.setPhase ?_
        intro hb hphase
        exact Nat.le_trans (hlow.answer hr hphase) hk
      · exact h
  | fail b =>
      refine muted_setAgent h ?_
      rintro rfl
      exact h.idle
  | finish b faults =>
      show Muted rep good ((w.finish b faults).agents a)
      unfold FleetState.finish
      split
      · rename_i s hb hmem hphase
        refine muted_setAgent h ?_
        rintro rfl
        exact h.handled hpos hmem hphase faults
      · exact h
  | crash b =>
      refine muted_setAgent h ?_
      rintro rfl
      exact h.crash
  | reopen b faults =>
      show Muted rep good ((w.reopen b faults).agents a)
      unfold FleetState.reopen
      split
      · exact h
      · refine muted_setAgent h ?_
        rintro rfl
        exact h.reopened faults

/-! ## §4 Runs. -/

/-- **A run of events**, as long as the changes do not take the control plane above the agent. -/
theorem muted_run (cfg : ι → AgentConfig) {a : ι} {b : Nat} (h : Muted rep good (w.agents a)) (hlow : Low b w.registry w.file)
    (hpos : 0 < rep.appliedSeq) (events : List (FleetEvent ι)) (hquota : b + changes events ≤ rep.appliedSeq) :
    Low (b + changes events) (w.runFrom cfg events).registry (w.runFrom cfg events).file ∧
      Muted rep good ((w.runFrom cfg events).agents a) := by
  induction events using List.reverseRecOn with
  | nil => exact ⟨hlow, h⟩
  | append_singleton events e ih =>
      have hcount : changes (events ++ [e]) = changes events + e.isChange.toNat := by
        unfold changes
        rw [List.countP_append, List.countP_singleton]
        cases e.isChange <;> rfl
      rw [hcount] at hquota ⊢
      obtain ⟨hlow', hmuted⟩ := ih (by omega)
      rw [runFrom_snoc]
      refine ⟨?_, hmuted.step hlow' (by omega) hpos e⟩
      rw [← Nat.add_assoc]
      exact hlow'.step e

omit [DecidableEq ι] in
/-- A message that is not applied is not reported as applied. -/
theorem not_applied_of_returns {d : DesiredState} {fs : List (Fault StoreTear)} {before after : Option (Contents Json)}
    {s s' : StateStore} {b : Bool} (h : Returns s d fs before (.ok b) s' after)
    (hkept : ∀ p, s.reported.diff d ≠ .applyPolicy p) : b = false := by
  cases h with
  | kept _ _ => rfl
  | applied _ hdiff _ => exact absurd hdiff (hkept _)

omit [DecidableEq ι] in
/-- What `sync_once` returns on an answer that is not newer. -/
theorem Muted.replies {a : ι} (h : Muted rep good (w.agents a)) (hpos : 0 < rep.appliedSeq)
    {faults : List (Fault StoreTear)} {applied : Bool} (hok : w.replies a faults = [.ok applied]) :
    applied = false := by
  unfold FleetState.replies at hok
  cases hmem : (w.agents a).mem with
  | none =>
      rw [hmem] at hok
      cases hok
  | some s =>
      cases hphase : (w.agents a).phase with
      | idle => simp [hmem, hphase] at hok
      | registered => simp [hmem, hphase] at hok
      | answered hb =>
          simp only [hmem, hphase] at hok
          have hs := h.mem s hmem
          unfold handleReplies handleRun at hok
          by_cases hnone : hb.hasPolicy = true → hb.policy = none
          · rw [handle_no_policy hnone] at hok
            cases hok
            rfl
          · obtain ⟨hhas, hsome⟩ := Classical.not_imp.mp hnone
            obtain ⟨p, hp⟩ := Option.ne_none_iff_exists'.mp hsome
            have hends := (handle_ends (s := s) hhas hp faults (w.agents a).disk).outcome none (some s)
            rcases hends with ⟨_, _, _, hreplies⟩ | ⟨_, _, _, _, ⟨r, s', hb', hreturns⟩, _, hreplies⟩
            · cases hreplies.symm.trans hok
            · obtain ⟨rfl, -⟩ := Prod.mk.inj hb'
              have hr : r.mapError AgentError.state = .ok applied := (List.cons.inj (hreplies.symm.trans hok)).1
              cases r with
              | error e => cases hr
              | ok b => exact Except.ok.inj hr ▸ not_applied_of_returns hreturns (hs.not_applied hpos (h.answer hb hphase) p)

/-- An answer that is newer binds the agent. -/
theorem finish_newer {a : ι} {faults : List (Fault StoreTear)} {hb : HeartbeatResponse} {p : Policy} {applied : Bool}
    (hmem : (w.agents a).mem = some s) (hphase : (w.agents a).phase = .answered hb) (hhas : hb.hasPolicy = true)
    (hp : hb.policy = some p) (hnewer : s.reported.appliedSeq < hb.desiredSeq)
    (hok : w.replies a faults = [.ok applied]) :
    ∃ s', ((w.finish a faults).agents a).mem = some s' ∧ s'.reported.policyVersion = p.version := by
  unfold FleetState.replies at hok
  unfold FleetState.finish
  rw [hmem, hphase] at hok ⊢
  have hok' : handleReplies s hb faults (w.agents a).disk = [.ok applied] := hok
  rcases handle_outcome hhas hp faults (w.agents a).disk with ⟨_, hdead, _⟩ | ⟨r, s', hlive, hreplies, hhandled⟩
  · cases hdead.symm.trans hok'
  · have hr : r.mapError AgentError.state = .ok applied := (List.cons.inj (hreplies.symm.trans hok')).1
    cases r with
    | error e => cases hr
    | ok applied' =>
        refine ⟨s', ?_, ?_⟩
        · rw [setAgent_same]
          exact hlive
        · have hseq : (desiredOf s hb p).seq = hb.desiredSeq := Nat.max_eq_left (by omega)
          rw [(hhandled.ok applied' rfl).1]
          refine process_version (by omega) ⟨?_, ?_⟩
          · show s.reported.appliedSeq ≤ (desiredOf s hb p).seq
            omega
          · intro heq
            have heq' : s.reported.appliedSeq = (desiredOf s hb p).seq := heq
            omega

end Steps

section Result

variable {ι : Type} [DecidableEq ι]

/-- **A control plane that is set back is ignored.** In a fleet in any state, agent `a` has applied seq `n`, its
state file says so too, and no answer is on its way to it; the control plane comes back with a registry at seq
`b`, or empty. In every run that goes on from there, in which it persists, with restarts on both sides and any other
faults, and with at most `n - b` changes by the operator: the report and the policy of the agent are what they were,
and a `sync_once` that returns `Ok` returns `Ok(false)`. And in every run from there, an answer with a seq above what
the agent has applied binds it, if its handling returns `Ok`. -/
theorem muted_after_setback (cfg : ι → AgentConfig) (w : FleetState ι) (a : ι) (s s₁ : StateStore)
    (file : Option Json) (b : Nat) (hmem : (w.agents a).mem = some s) (hpos : 0 < s.reported.appliedSeq)
    (hdisk : (w.agents a).disk.file = some (.whole s₁.json)) (hreported : s₁.reported = s.reported)
    (hgood : s₁.lastGoodPolicy = s.lastGoodPolicy) (hidle : ∀ hb, (w.agents a).phase ≠ .answered hb)
    (hfound : FoundAt b file) (events : List (FleetEvent ι)) :
    let w' := (w.setBack file).runFrom cfg events
    (b + changes events ≤ s.reported.appliedSeq →
        (∀ s', (w'.agents a).mem = some s' → s'.reported = s.reported ∧ s'.lastGoodPolicy = s.lastGoodPolicy) ∧
          ∀ faults applied, w'.replies a faults = [.ok applied] → applied = false) ∧
      ∀ s' faults hb p applied, (w'.agents a).mem = some s' → (w'.agents a).phase = .answered hb →
        hb.hasPolicy = true → hb.policy = some p → s'.reported.appliedSeq < hb.desiredSeq →
        w'.replies a faults = [.ok applied] →
        ∃ s'', ((w'.finish a faults).agents a).mem = some s'' ∧ s''.reported.policyVersion = p.version := by
  intro w'
  refine ⟨?_, ?_⟩
  · intro hquota
    have hmuted : Muted s.reported s.lastGoodPolicy ((w.setBack file).agents a) := by
      refine ⟨?_, ⟨s₁, hdisk, hreported, hgood⟩, fun hb hc => absurd hc (hidle hb)⟩
      intro s' hs'
      obtain rfl : s = s' := Option.some.inj (hmem.symm.trans hs')
      exact ⟨rfl, rfl⟩
    have hrun := (muted_run cfg hmuted (low_of_foundAt hfound) hpos events hquota).2
    refine ⟨?_, ?_⟩
    · intro s' hs'
      have hs := hrun.mem s' hs'
      exact ⟨hs.reported, hs.lastGoodPolicy⟩
    · intro faults applied hok
      exact hrun.replies hpos hok
  · intro s' faults hb p applied hmem' hphase hhas hp hnewer hok
    exact finish_newer hmem' hphase hhas hp hnewer hok

end Result

/-- An edge that has applied version 7 at seq 3. -/
def thirdPolicy : StateStore := StateStore.fresh.applied { Policy.default with version := 7 } 3

/-- Its control plane ran without `CONTROL_PERSIST_PATH`. -/
def memoryOnly : FleetState Unit where
  registry := none
  file := none
  agents _ := ⟨some thirdPolicy, ⟨some (.whole thirdPolicy.json), none⟩, .idle⟩

/-- After the restart the operator pushes version 5, and the agent syncs. -/
theorem muted_after_setback_memoryOnly :
    let w' := (memoryOnly.setBack none).runFrom (fun _ => ⟨"edge-01", "dev-hw", "0.1.0"⟩)
      (firstSync ++ [.finish () []])
    (∀ s', (w'.agents ()).mem = some s' →
        s'.reported = thirdPolicy.reported ∧ s'.lastGoodPolicy = thirdPolicy.lastGoodPolicy) ∧
      ∀ faults applied, w'.replies () faults = [.ok applied] → applied = false :=
  (muted_after_setback _ memoryOnly () thirdPolicy thirdPolicy none 0 rfl (by decide) rfl rfl rfl (fun _ h => by cases h)
    (.inl ⟨rfl, rfl⟩) (firstSync ++ [.finish () []])).1 (by decide)

end Edgewarden.Fleet
