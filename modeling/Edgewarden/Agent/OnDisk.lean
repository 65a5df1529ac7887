/-
# Edgewarden.Agent.OnDisk — whether what the agent reports is what it boots with.

`mark_policy_applied` assigns the report and the policy BEFORE it writes the state file. When that write
fails, `sync_once` returns the error, but the store in memory keeps the new report; the next cycle with
the same desired state finds nothing to do, writes nothing, and returns `Ok`. The agent then reports a
version that it would not boot with.

* `Unsaved` is the exact condition, over the history of a run: a write of `mark_policy_applied` has
  failed, and since then no write of the state file has completed and the agent was not reopened.
* `report_on_disk_iff`: after a cycle that returned `Ok`, in any run, the state file opens with the
  report and the policy of the store in memory if and only if the run is not `Unsaved`.
  `unsaved_report` is a run of two cycles that is.
-/
import Edgewarden.Agent.LastGood

namespace Edgewarden.Agent

open Edgewarden.FaultIo Edgewarden.Registry Edgewarden.Serde Edgewarden.State

/-! ## §1 A cycle under given faults. -/

/-- The message a cycle hands to the store, if its response carries a policy. -/
def Cycle.message (c : Cycle) (cfg : AgentConfig) (s : StateStore) : Option DesiredState :=
  match c.exchange cfg s with
  | .ok hb => if hb.hasPolicy then hb.policy.map (desiredOf s hb) else none
  | .error _ => none

theorem handle_ends {s : StateStore} {hb : HeartbeatResponse} {p : Policy} (hhas : hb.hasPolicy = true)
    (hp : hb.policy = some p) (fs : List (Fault StoreTear)) (disk : StoreDisk) :
    (handle s hb).Ends storeDevice (fun _ => True)
      (fun _ disk' b => ∃ r s', b = (r.mapError .state, some s') ∧
        Returns s (desiredOf s hb p) fs disk.file r s' disk'.file) fs disk := by
  have hresponse : MethodEnds storeDevice (fun _ => True) (handleResponse hb)
      (fun _ disk' r => Returns s (desiredOf s hb p) fs disk.file r.1 r.2 disk'.file) s fs disk := by
    unfold handleResponse
    rw [if_pos hhas, hp]
    exact method_ends_get (processMessage_ends s _ fs disk)
  unfold handle
  rw [Prog.ends_bind]
  refine hresponse.mono ?_
  intro _ disk' r hr
  exact ⟨r.1, r.2, rfl, hr⟩

section Cycle

variable {c : Cycle} {cfg : AgentConfig} {s : StateStore}

/-- A cycle without a message leaves memory and disk. -/
theorem Cycle.run_no_message (h : c.message cfg s = none) (disk : StoreDisk) :
    (c.run cfg s disk).2 = ⟨some s, disk⟩ := by
  unfold Cycle.message at h
  cases hex : c.exchange cfg s with
  | error e => rw [Cycle.run_error hex]
  | ok hb =>
      rw [Cycle.run_ok hex]
      refine handleRun_no_policy ?_ c.faults disk
      intro hhas
      simp only [hex, if_pos hhas] at h
      exact Option.map_eq_none_iff.mp h

/-- A cycle with a message dies or returns. -/
theorem Cycle.run_message {d : DesiredState} (h : c.message cfg s = some d) (disk : StoreDisk) :
    ((c.run cfg s disk).2.mem = none ∧ c.replies cfg s disk = []) ∨
      ∃ r s', (c.run cfg s disk).2.mem = some s' ∧ c.replies cfg s disk = [r.mapError .state] ∧
        Returns s d c.faults disk.file r s' (c.run cfg s disk).2.disk.file := by
  unfold Cycle.message at h
  cases hex : c.exchange cfg s with
  | error e =>
      rw [hex] at h
      cases h
  | ok hb =>
      by_cases hhas : hb.hasPolicy = true
      · simp only [hex, if_pos hhas] at h
        obtain ⟨p, hp, rfl⟩ := Option.map_eq_some_iff.mp h
        unfold Cycle.replies
        rw [Cycle.run_ok hex]
        unfold handleRun
        rcases (handle_ends hhas hp c.faults disk).outcome none (some s) with
          ⟨_, _, hworld, hreplies⟩ | ⟨_, d', b, m', ⟨r, s', hb', hreturns⟩, hworld, hreplies⟩
        · exact .inl ⟨by rw [hworld], hreplies⟩
        · cases hb'
          refine .inr ⟨r, s', by rw [hworld], hreplies, ?_⟩
          rw [hworld]
          exact hreturns
      · simp only [hex, if_neg hhas] at h
        cases h

end Cycle

/-! ## §2 Reports that are not on disk. -/

/-- `StateStore::open` on the state path, where the file system answers. -/
def reopened (disk : StoreDisk) : Except StateError StateStore :=
  ((openStore disk.file).quiet storeDevice disk).1

theorem reopened_whole {disk : StoreDisk} {s : StateStore} (h : disk.file = some (.whole s.json)) :
    reopened disk = .ok s := by
  unfold reopened
  rw [h]
  exact decodeStore_whole s

theorem reopened_congr {disk disk' : StoreDisk} (h : disk'.file = disk.file) :
    reopened disk' = reopened disk := by
  unfold reopened
  rw [h]
  cases disk.file <;> rfl

/-- The write of `mark_policy_applied` fails, after `ingest` succeeded. -/
def MarkFailed (s : StateStore) (d : DesiredState) (fs : List (Fault StoreTear)) : Prop :=
  (∃ p, s.reported.diff d = .applyPolicy p) ∧ ingestFault s d fs = .ok ∧ ∃ t, markFault s d fs = .fail t

/-- A write of the state file completes. -/
def Saved (s : StateStore) (d : DesiredState) (fs : List (Fault StoreTear)) : Prop :=
  ingestFault s d fs = .ok ∧
    (s.isNewer d = true ∨ (∃ p, s.reported.diff d = .applyPolicy p) ∧ markFault s d fs = .ok)

/-- The event is a cycle in which the write of `mark_policy_applied` fails. -/
def MarkFails (cfg : AgentConfig) (w : AgentWorld) (e : AgentEvent) : Prop :=
  ∃ c s d, e = .sync c ∧ w.mem = some s ∧ c.message cfg s = some d ∧ MarkFailed s d c.faults

/-- The event is a cycle that completes a write of the state file, or opens the agent. -/
def Saves (cfg : AgentConfig) (w : AgentWorld) (e : AgentEvent) : Prop :=
  (∃ c s d, e = .sync c ∧ w.mem = some s ∧ c.message cfg s = some d ∧ Saved s d c.faults) ∨
    ∃ fs, e = .reopen fs ∧ w.mem = none

/-- A write of `mark_policy_applied` has failed and nothing has made up for it. -/
inductive Unsaved (cfg : AgentConfig) : List AgentEvent → Prop
  | failed {events : List AgentEvent} {e : AgentEvent} : MarkFails cfg (agentAfter cfg events) e →
      Unsaved cfg (events ++ [e])
  | still {events : List AgentEvent} {e : AgentEvent} : Unsaved cfg events →
      ¬ Saves cfg (agentAfter cfg events) e → Unsaved cfg (events ++ [e])

theorem not_unsaved_nil (cfg : AgentConfig) : ¬ Unsaved cfg [] := by
  intro h
  generalize hnil : ([] : List AgentEvent) = events at h
  cases h with
  | failed _ => simp at hnil
  | still _ _ => simp at hnil

theorem unsaved_snoc {cfg : AgentConfig} {events : List AgentEvent} {e : AgentEvent} :
    Unsaved cfg (events ++ [e]) ↔ MarkFails cfg (agentAfter cfg events) e ∨
      Unsaved cfg events ∧ ¬ Saves cfg (agentAfter cfg events) e := by
  constructor
  · intro h
    generalize hlist : events ++ [e] = all at h
    cases h with
    | failed hfails =>
        obtain ⟨rfl, he⟩ := List.append_inj' hlist rfl
        rw [List.singleton_inj.mp he]
        exact .inl hfails
    | still hunsaved hsaves =>
        obtain ⟨rfl, he⟩ := List.append_inj' hlist rfl
        rw [List.singleton_inj.mp he]
        exact .inr ⟨hunsaved, hsaves⟩
  · rintro (h | ⟨h, hsaves⟩)
    · exact .failed h
    · exact .still h hsaves

section Events

variable {cfg : AgentConfig} {w : AgentWorld} {c : Cycle} {s : StateStore}

theorem markFails_sync {d : DesiredState} (hmem : w.mem = some s) (hmsg : c.message cfg s = some d) :
    MarkFails cfg w (.sync c) ↔ MarkFailed s d c.faults := by
  constructor
  · rintro ⟨_, s', d', hc, hmem', hmsg', hfailed⟩
    cases hc
    cases Option.some.inj (hmem.symm.trans hmem')
    cases Option.some.inj (hmsg.symm.trans hmsg')
    exact hfailed
  · intro hfailed
    exact ⟨c, s, d, rfl, hmem, hmsg, hfailed⟩

theorem saves_sync {d : DesiredState} (hmem : w.mem = some s) (hmsg : c.message cfg s = some d) :
    Saves cfg w (.sync c) ↔ Saved s d c.faults := by
  constructor
  · rintro (⟨_, s', d', hc, hmem', hmsg', hsaved⟩ | ⟨_, hc, _⟩)
    · cases hc
      cases Option.some.inj (hmem.symm.trans hmem')
      cases Option.some.inj (hmsg.symm.trans hmsg')
      exact hsaved
    · cases hc
  · intro hsaved
    exact .inl ⟨c, s, d, rfl, hmem, hmsg, hsaved⟩

/-- A cycle without a message writes nothing. -/
theorem sync_quiet (hmem : w.mem = some s) (hmsg : c.message cfg s = none) :
    ¬ MarkFails cfg w (.sync c) ∧ ¬ Saves cfg w (.sync c) := by
  constructor
  · rintro ⟨_, s', d', hc, hmem', hmsg', _⟩
    cases hc
    cases Option.some.inj (hmem.symm.trans hmem')
    simp [hmsg] at hmsg'
  · rintro (⟨_, s', d', hc, hmem', hmsg', _⟩ | ⟨_, hc, _⟩)
    · cases hc
      cases Option.some.inj (hmem.symm.trans hmem')
      simp [hmsg] at hmsg'
    · cases hc

end Events

/-! ## §3 The invariant. -/

/-- The file opens with the report and the policy of the store in memory. -/
structure SameReport (f s : StateStore) : Prop where
  reported : f.reported = s.reported
  policy : f.lastGoodPolicy = s.lastGoodPolicy

/-- How the stored and the running agent compare: an unsaved report is ahead of the file, and otherwise
the two are the same. -/
def Compared (unsaved : Prop) (f s : StateStore) : Prop :=
  (unsaved ∧ f.reported.appliedSeq < s.reported.appliedSeq) ∨ (¬ unsaved ∧ SameReport f s)

theorem Compared.congr {P Q : Prop} {f s s' : StateStore} (h : Compared P f s) (hPQ : P ↔ Q)
    (hs : SameReport s s') : Compared Q f s' := by
  rcases h with ⟨hu, hlt⟩ | ⟨hu, hsame⟩
  · exact .inl ⟨hPQ.mp hu, hs.reported ▸ hlt⟩
  · exact .inr ⟨fun hq => hu (hPQ.mpr hq),
      ⟨hsame.reported.trans hs.reported, hsame.policy.trans hs.policy⟩⟩

theorem Compared.le {P : Prop} {f s : StateStore} (h : Compared P f s) :
    f.reported.appliedSeq ≤ s.reported.appliedSeq := by
  rcases h with ⟨_, hlt⟩ | ⟨_, hsame⟩
  · exact Nat.le_of_lt hlt
  · rw [hsame.reported]

theorem sameReport_track (s : StateStore) (d : DesiredState) : SameReport s (s.track d) :=
  ⟨(s.track_reported d).symm, (s.track_lastGoodPolicy d).symm⟩

/-- A policy that is applied raises `applied_seq`. -/
theorem process_appliedSeq {s : StateStore} {d : DesiredState} {p : Policy}
    (h : s.reported.diff d = .applyPolicy p) :
    s.reported.appliedSeq < (s.process d).reported.appliedSeq := by
  obtain ⟨_, hlt, hne⟩ := diff_eq_applyPolicy_iff.mp h
  have hpair := StateStore.process_reported s d
  rw [if_pos ⟨hlt, hne⟩] at hpair
  rw [(Prod.mk.inj hpair).2]
  exact hlt

/-- The state file of a running agent opens, and compares with the store in memory. -/
def Accounted (cfg : AgentConfig) (events : List AgentEvent) (w : AgentWorld) : Prop :=
  ∀ s, w.mem = some s → ∃ f, reopened w.disk = .ok f ∧ Compared (Unsaved cfg events) f s

/-- The file after a successful `ingest` opens as the tracked store, or as it did before. -/
theorem reopened_tracked {s f : StateStore} {d : DesiredState} {disk disk' : StoreDisk}
    (hfile : disk'.file = trackedFile s d disk.file) (hopen : reopened disk = .ok f) :
    reopened disk' = .ok (if s.isNewer d then s.track d else f) := by
  unfold trackedFile at hfile
  split at hfile
  · rw [if_pos (by assumption)]
    exact reopened_whole hfile
  · rw [if_neg (by assumption)]
    exact (reopened_congr hfile).trans hopen

/-- What a returning cycle leaves, from what it found. -/
theorem returns_compared {s s' f : StateStore} {d : DesiredState} {fs : List (Fault StoreTear)}
    {r : Except StateError Bool} {disk disk' : StoreDisk} {P : Prop}
    (h : Returns s d fs disk.file r s' disk'.file) (hopen : reopened disk = .ok f)
    (hf : Compared P f s) :
    ∃ f', reopened disk' = .ok f' ∧ Compared (MarkFailed s d fs ∨ P ∧ ¬ Saved s d fs) f' s' := by
  generalize hfile : disk'.file = file' at h
  cases h with
  | ingestFailed hingest =>
      -- nothing is written, and the report stays
      refine ⟨f, (reopened_congr hfile).trans hopen, hf.congr ?_ (sameReport_track s d)⟩
      simp [MarkFailed, Saved, hingest]
  | kept hingest hne =>
      refine ⟨_, reopened_tracked hfile hopen, ?_⟩
      by_cases hnew : s.isNewer d = true
      · rw [if_pos hnew]
        refine .inr ⟨?_, ⟨rfl, rfl⟩⟩
        simp [MarkFailed, Saved, hingest, hne, hnew]
      · rw [if_neg hnew]
        refine hf.congr ?_ (sameReport_track s d)
        simp [MarkFailed, Saved, hne, hnew]
  | markFailed hingest hdiff hmark =>
      refine ⟨_, reopened_tracked hfile hopen, .inl ⟨.inl ⟨⟨_, hdiff⟩, hingest, _, hmark⟩, ?_⟩⟩
      refine Nat.lt_of_le_of_lt ?_ (process_appliedSeq hdiff)
      split
      · rw [s.track_reported]
      · exact hf.le
  | applied hingest hdiff hmark =>
      refine ⟨_, reopened_whole hfile, .inr ⟨?_, ⟨rfl, rfl⟩⟩⟩
      simp [MarkFailed, Saved, hingest, hdiff, hmark]

theorem accounted_sync {cfg : AgentConfig} {events : List AgentEvent} {c : Cycle} {s : StateStore}
    (h : Accounted cfg events (agentAfter cfg events)) (hmem : (agentAfter cfg events).mem = some s) :
    Accounted cfg (events ++ [.sync c]) (c.run cfg s (agentAfter cfg events).disk).2 := by
  obtain ⟨f, hopen, hf⟩ := h s hmem
  intro s' hs'
  cases hmsg : c.message cfg s with
  | none =>
      rw [Cycle.run_no_message hmsg] at hs' ⊢
      obtain ⟨hmark, hsaves⟩ := sync_quiet hmem hmsg
      rw [← Option.some.inj hs']
      refine ⟨f, hopen, hf.congr ?_ ⟨rfl, rfl⟩⟩
      simp [unsaved_snoc, hmark, hsaves]
  | some d =>
      rcases Cycle.run_message hmsg (agentAfter cfg events).disk with ⟨hdead, _⟩ |
          ⟨r, s₁, hlive, _, hreturns⟩
      · cases hdead.symm.trans hs'
      · obtain ⟨f', hopen', hf'⟩ := returns_compared hreturns hopen hf
        rw [← Option.some.inj (hlive.symm.trans hs')]
        refine ⟨f', hopen', hf'.congr ?_ ⟨rfl, rfl⟩⟩
        rw [unsaved_snoc, markFails_sync hmem hmsg, saves_sync hmem hmsg]

/-- A reopened agent holds what is in its file. -/
theorem accounted_reopen {cfg : AgentConfig} {events : List AgentEvent} (faults : List (Fault StoreTear))
    (hmem : (agentAfter cfg events).mem = none) :
    Accounted cfg (events ++ [.reopen faults]) (openRun faults (agentAfter cfg events).disk) := by
  obtain ⟨hfile, hopened⟩ := open_outcome faults (agentAfter cfg events).disk
  intro s hs
  have hsaved : ¬ Unsaved cfg (events ++ [.reopen faults]) := by
    rw [unsaved_snoc]
    rintro (⟨_, _, _, hc, _⟩ | ⟨_, hsaves⟩)
    · cases hc
    · exact hsaves (.inr ⟨faults, rfl, hmem⟩)
  refine ⟨s, ?_, .inr ⟨hsaved, ⟨rfl, rfl⟩⟩⟩
  rw [reopened_congr hfile]
  unfold reopened
  rcases hopened s hs with ⟨hnone, rfl⟩ | ⟨contents, hcontents, hdecode⟩
  · rw [hnone]
    rfl
  · rw [hcontents]
    exact hdecode

theorem accounted_after (cfg : AgentConfig) (events : List AgentEvent) :
    Accounted cfg events (agentAfter cfg events) := by
  induction events using List.reverseRecOn with
  | nil =>
      intro s hs
      rw [← Option.some.inj hs]
      exact ⟨.fresh, rfl, .inr ⟨not_unsaved_nil cfg, ⟨rfl, rfl⟩⟩⟩
  | append_singleton events e ih =>
      rw [agentAfter_snoc]
      cases e with
      | crash => exact fun s hs => (by cases hs)
      | sync c =>
          cases hmem : (agentAfter cfg events).mem with
          | none =>
              intro s hs
              simp [agentStep, hmem] at hs
          | some s =>
              have hstep : agentStep cfg (agentAfter cfg events) (.sync c) =
                  (c.run cfg s (agentAfter cfg events).disk).2 := by
                simp only [agentStep, hmem]
              rw [hstep]
              exact accounted_sync ih hmem
      | reopen faults =>
          cases hmem : (agentAfter cfg events).mem with
          | none =>
              have hstep : agentStep cfg (agentAfter cfg events) (.reopen faults) =
                  openRun faults (agentAfter cfg events).disk := by
                simp only [agentStep, hmem]
              rw [hstep]
              exact accounted_reopen faults hmem
          | some s =>
              have hstep : agentStep cfg (agentAfter cfg events) (.reopen faults) =
                  agentAfter cfg events := by
                simp only [agentStep, hmem]
              rw [hstep]
              intro s' hs'
              obtain ⟨f, hopen, hf⟩ := ih s' hs'
              refine ⟨f, hopen, hf.congr ?_ ⟨rfl, rfl⟩⟩
              simp [unsaved_snoc, MarkFails, Saves, hmem]

/-! ## §4 The result. -/

/-- **When what the agent reports is on disk.** In any run, after a cycle that returned `Ok`: the state
file opens with the report and the policy of the store in memory, if and only if no write of
`mark_policy_applied` has failed without a later write of the state file, or a reopening, to make up for
it. -/
theorem report_on_disk_iff (cfg : AgentConfig) (events : List AgentEvent) (c : Cycle) (s : StateStore)
    (b : Bool) (hmem : (agentAfter cfg events).mem = some s)
    (hok : c.replies cfg s (agentAfter cfg events).disk = [.ok b]) :
    (∃ f s', reopened (agentAfter cfg (events ++ [.sync c])).disk = .ok f ∧
        (agentAfter cfg (events ++ [.sync c])).mem = some s' ∧ SameReport f s') ↔
      ¬ Unsaved cfg (events ++ [.sync c]) := by
  have hafter : agentAfter cfg (events ++ [.sync c]) =
      (c.run cfg s (agentAfter cfg events).disk).2 := by
    rw [agentAfter_snoc]
    simp only [agentStep, hmem]
  obtain ⟨s', hs'⟩ : ∃ s', (agentAfter cfg (events ++ [.sync c])).mem = some s' := by
    rw [hafter]
    cases hmsg : c.message cfg s with
    | none => exact ⟨s, by rw [Cycle.run_no_message hmsg]⟩
    | some d =>
        rcases Cycle.run_message hmsg (agentAfter cfg events).disk with ⟨_, hnone⟩ | ⟨_, s', hlive, _⟩
        · simp [hnone] at hok
        · exact ⟨s', hlive⟩
  obtain ⟨f, hopen, hcompared⟩ := accounted_after cfg (events ++ [.sync c]) s' hs'
  constructor
  · rintro ⟨f', s'', hopen', hs'', hsame⟩ hunsaved
    have hf : f' = f := Except.ok.inj (hopen'.symm.trans hopen)
    have hs : s'' = s' := Option.some.inj (hs''.symm.trans hs')
    subst hf hs
    rcases hcompared with ⟨_, hlt⟩ | ⟨hnot, _⟩
    · rw [hsame.reported] at hlt
      omega
    · exact hnot hunsaved
  · intro hsaved
    rcases hcompared with ⟨hunsaved, _⟩ | ⟨_, hsame⟩
    · exact absurd hunsaved hsaved
    · exact ⟨f, s', hopen, hs', hsame⟩

/-! ## §5 Two cycles. -/

/-- A control plane that answers every heartbeat with version 7 at seq 1. -/
def steadyLink : Link where
  connect := .ok ()
  register _ := .ok ⟨true, 7, some { Policy.default with version := 7 }, ""⟩
  heartbeat _ := .ok ⟨7, some { Policy.default with version := 7 }, true, "", 1⟩

def steadyCycle (faults : List (Fault StoreTear)) : Cycle :=
  ⟨steadyLink, ⟨F64.zero, 0, 0, 0⟩, 0, faults⟩

theorem report_on_disk_steadyCycle :
    (∃ f s', reopened (agentAfter anEdge [.sync (steadyCycle [])]).disk = .ok f ∧
        (agentAfter anEdge [.sync (steadyCycle [])]).mem = some s' ∧ SameReport f s') ↔
      ¬ Unsaved anEdge [.sync (steadyCycle [])] :=
  report_on_disk_iff anEdge [] (steadyCycle []) .fresh true rfl rfl

/-- The rename of `mark_policy_applied` fails once; the next cycle returns `Ok` and the agent reports
version 7, but the state file still opens with version 0. -/
theorem unsaved_report :
    ∃ (events : List AgentEvent) (c : Cycle) (s s' f : StateStore),
      (agentAfter anEdge events).mem = some s ∧
      c.replies anEdge s (agentAfter anEdge events).disk = [.ok false] ∧
      (agentAfter anEdge (events ++ [.sync c])).mem = some s' ∧
      reopened (agentAfter anEdge (events ++ [.sync c])).disk = .ok f ∧
      s'.reported.policyVersion = 7 ∧ f.reported.policyVersion = 0 ∧ ¬ SameReport f s' := by
  let tracked : StateStore := StateStore.fresh.track
    ⟨1, { Policy.default with version := 7 }, ""⟩
  let ahead : StateStore := StateStore.fresh.process
    ⟨1, { Policy.default with version := 7 }, ""⟩
  refine ⟨[.sync (steadyCycle [.ok, .ok, .ok, .ok, .ok, .fail .untouched])], steadyCycle [], ahead, ahead,
    tracked, rfl, rfl, rfl, ?_, rfl, rfl, ?_⟩
  · exact reopened_whole rfl
  · intro hsame
    have hversion : tracked.reported.policyVersion = ahead.reported.policyVersion := by
      rw [hsame.reported]
    revert hversion
    decide

end Edgewarden.Agent
