/-
# Edgewarden.Agent.Boot — the upstream that `edge-agent/src/main.rs` selects at boot.

`main` opens the state store once before the proxy starts. A store that has synced a policy wins with the
upstream of its last-known-good policy, and the static `--upstream` is used otherwise: "the compiled default
must never shadow the operator". Both are specifications here, before they are resolved to an address.

But the last-known-good policy of a store that has not synced yet IS the compiled default. A first policy
with an empty `default_upstream` is completed with the upstream of that, and from then on the store counts
as synced.

* `boot_upstream_named`: in every run in which no agent that has not synced is sent such a policy, the
  upstream is the operator's or one that a response carried. `compiled_default_shadows` is a run of one
  cycle in which it is neither.
-/
import Edgewarden.Agent.OnDisk

namespace Edgewarden.Agent

open Edgewarden.FaultIo Edgewarden.Registry Edgewarden.Serde Edgewarden.State

/-! ## §1 The selection. -/

/-- `has_synced_policy`. -/
def hasSyncedPolicy (s : StateStore) : Bool :=
  decide (s.reported.appliedSeq > 0) || decide (s.reported.policyVersion > 0)

/-- `policy_upstream`, as a specification. -/
def policyUpstream (s : StateStore) : Option String :=
  if hasSyncedPolicy s ∧ s.lastGoodPolicy.defaultUpstream ≠ "" then some s.lastGoodPolicy.defaultUpstream
  else none

/-- `policy_upstream.unwrap_or(static_upstream)`. -/
def upstreamAddr (static : String) (s : StateStore) : String := (policyUpstream s).getD static

/-- What `main` selects on a disk; `none` if the store does not open, and then `main` ends. -/
def bootUpstream (static : String) (faults : List (Fault StoreTear)) (disk : StoreDisk) : Option String :=
  (openRun faults disk).mem.map (upstreamAddr static)

/-! ## §2 Where an upstream comes from. -/

/-- A heartbeat response of the run carried a policy with this upstream. -/
def Carried (cfg : AgentConfig) (events : List AgentEvent) (upstream : String) : Prop :=
  ∃ before c after s hb p, events = before ++ .sync c :: after ∧ (agentAfter cfg before).mem = some s ∧
    c.exchange cfg s = .ok hb ∧ hb.policy = some p ∧ p.defaultUpstream = upstream

theorem Carried.later {cfg : AgentConfig} {events : List AgentEvent} {upstream : String}
    (h : Carried cfg events upstream) (e : AgentEvent) : Carried cfg (events ++ [e]) upstream := by
  obtain ⟨before, c, after, s, hb, p, rfl, hmem, hex, hp, hu⟩ := h
  exact ⟨before, c, after ++ [e], s, hb, p, by simp, hmem, hex, hp, hu⟩

/-- The step does not send a policy without an upstream to an agent that has not synced. Version 0 is the
version such an agent reports, so it does not count. -/
def Named (cfg : AgentConfig) (w : AgentWorld) : AgentEvent → Prop
  | .sync c => ∀ s hb p, w.mem = some s → hasSyncedPolicy s = false → c.exchange cfg s = .ok hb →
      hb.hasPolicy = true → hb.policy = some p → p.version ≠ 0 → p.defaultUpstream ≠ ""
  | _ => True

/-- Every step of the run is `Named`. -/
def AllNamed (cfg : AgentConfig) (events : List AgentEvent) : Prop :=
  ∀ before e after, events = before ++ e :: after → Named cfg (agentAfter cfg before) e

theorem AllNamed.init {cfg : AgentConfig} {events : List AgentEvent} {e : AgentEvent}
    (h : AllNamed cfg (events ++ [e])) : AllNamed cfg events := by
  rintro before e' after rfl
  exact h before e' (after ++ [e]) (by simp)

/-- The upstream of a synced store was carried, or there is none. -/
def Sourced (cfg : AgentConfig) (events : List AgentEvent) (s : StateStore) : Prop :=
  hasSyncedPolicy s = true → s.lastGoodPolicy.defaultUpstream = "" ∨
    Carried cfg events s.lastGoodPolicy.defaultUpstream

theorem Sourced.track {cfg : AgentConfig} {events : List AgentEvent} {s : StateStore}
    (h : Sourced cfg events s) (d : DesiredState) : Sourced cfg events (s.track d) := by
  simpa only [Sourced, hasSyncedPolicy, s.track_reported, s.track_lastGoodPolicy] using h

/-- A store that has not synced reports version 0. -/
theorem reported_unsynced {s : StateStore} (h : hasSyncedPolicy s = false) : s.reported.policyVersion = 0 := by
  have hzero : ¬ s.reported.policyVersion > 0 := by
    intro hpos
    simp [hasSyncedPolicy, hpos] at h
  simpa using hzero

/-- Handling the response of a named step. An empty upstream is completed from a store that has synced, and
then that store's own upstream was carried. -/
theorem Sourced.process {cfg : AgentConfig} {events : List AgentEvent} {c : Cycle} {s : StateStore}
    {hb : HeartbeatResponse} {p : Policy} (h : Sourced cfg (events ++ [.sync c]) s)
    (hnamed : Named cfg (agentAfter cfg events) (.sync c)) (hmem : (agentAfter cfg events).mem = some s)
    (hex : c.exchange cfg s = .ok hb) (hhas : hb.hasPolicy = true) (hp : hb.policy = some p) :
    Sourced cfg (events ++ [.sync c]) (s.process (desiredOf s hb p)) := by
  rcases process_lastGoodPolicy s (desiredOf s hb p) with ⟨hrep, hgood⟩ | ⟨hversion, _, hgood⟩
  · simpa only [Sourced, hasSyncedPolicy, hrep, hgood] using h
  · intro _
    rw [hgood]
    by_cases hempty : p.defaultUpstream = ""
    · have hsynced : hasSyncedPolicy s = true := by
        by_contra hnot
        have hunsynced : hasSyncedPolicy s = false := by simpa using hnot
        rw [reported_unsynced hunsynced] at hversion
        exact hnamed s hb p hmem hunsynced hex hhas hp hversion hempty
      have hown : (desiredOf s hb p).policy.defaultUpstream = s.lastGoodPolicy.defaultUpstream := if_pos hempty
      rw [hown]
      exact h hsynced
    · have hown : (desiredOf s hb p).policy.defaultUpstream = p.defaultUpstream := if_neg hempty
      rw [hown]
      exact .inr ⟨events, c, [], s, hb, p, rfl, hmem, hex, hp, rfl⟩

theorem sourced_after {cfg : AgentConfig} {events : List AgentEvent} (h : AllNamed cfg events) :
    Keeps (Sourced cfg events) (agentAfter cfg events) := by
  have hfresh : ∀ events, Sourced cfg events .fresh := fun _ hsynced => by cases hsynced
  induction events using List.reverseRecOn with
  | nil => exact ⟨fun s hs => Option.some.inj hs ▸ hfresh [], .inl rfl⟩
  | append_singleton events e ih =>
      rw [agentAfter_snoc]
      have hlater : Keeps (Sourced cfg (events ++ [e])) (agentAfter cfg events) :=
        (ih h.init).mono fun s hs hsynced => (hs hsynced).imp_right fun hc => hc.later e
      refine hlater.step (hfresh _) (fun s d hs => hs.track d) ?_
      intro c s hb p he hmem hex hhas hp hs
      subst he
      exact hs.process (h events _ [] rfl) hmem hex hhas hp

/-! ## §3 The result. -/

/-- **The compiled default does not shadow the operator in a run whose steps are all named.** After any
cycles, crashes and reopenings, whatever fails, the upstream that `main` selects is the operator's static
one, or a non-empty one that an earlier heartbeat response carried. -/
theorem boot_upstream_named (cfg : AgentConfig) (events : List AgentEvent) (static : String)
    (faults : List (Fault StoreTear)) (upstream : String) (hnamed : AllNamed cfg events)
    (hboot : bootUpstream static faults (agentAfter cfg events).disk = some upstream) :
    upstream = static ∨ upstream ≠ "" ∧ Carried cfg events upstream := by
  obtain ⟨s, hs, rfl⟩ := Option.map_eq_some_iff.mp hboot
  have hopened : Keeps (Sourced cfg events) (openRun faults (agentAfter cfg events).disk) :=
    (sourced_after hnamed).opened (fun hsynced => by cases hsynced) faults
  unfold upstreamAddr policyUpstream
  split
  · rename_i hpolicy
    refine .inr ⟨hpolicy.2, ?_⟩
    exact (hopened.mem s hs hpolicy.1).resolve_left hpolicy.2
  · exact .inl rfl

/-- A control plane whose only policy is version 5 with this upstream. -/
def pushing (upstream : String) : Cycle where
  link :=
    { connect := .ok ()
      register := fun _ =>
        .ok ⟨true, 5, some { Policy.default with version := 5, defaultUpstream := upstream }, ""⟩
      heartbeat := fun _ =>
        .ok ⟨5, some { Policy.default with version := 5, defaultUpstream := upstream }, true, "", 1⟩ }
  usage := ⟨F64.zero, 0, 0, 0⟩
  activeConnections := 0
  faults := []

/-- All a response of such a control plane can carry. -/
theorem exchange_pushing {upstream : String} {cfg : AgentConfig} {s : StateStore} {hb : HeartbeatResponse}
    {p : Policy} (hex : (pushing upstream).exchange cfg s = .ok hb) (hp : hb.policy = some p) :
    p.defaultUpstream = upstream := by
  cases hex
  cases hp
  rfl

theorem boot_upstream_pushing :
    "10.0.0.9:80" = "10.0.0.1:80" ∨ "10.0.0.9:80" ≠ "" ∧ Carried anEdge [.sync (pushing "10.0.0.9:80")] "10.0.0.9:80" := by
  refine boot_upstream_named anEdge _ "10.0.0.1:80" [] "10.0.0.9:80" ?_ (by decide +kernel)
  intro before e after hsplit
  obtain ⟨rfl, rfl, rfl⟩ : before = [] ∧ e = .sync (pushing "10.0.0.9:80") ∧ after = [] := by
    simpa [List.singleton_eq_append_iff] using hsplit
  intro s hb p _ _ hex _ hp _
  rw [exchange_pushing hex hp]
  decide

/-- The first policy of a fresh agent leaves its upstream empty. The agent boots with the compiled default,
which no response carried, and not with the operator's upstream. -/
theorem compiled_default_shadows :
    bootUpstream "10.0.0.1:80" [] (agentAfter anEdge [.sync (pushing "")]).disk = some "127.0.0.1:18081" ∧
      ¬ ("127.0.0.1:18081" = "10.0.0.1:80" ∨
        "127.0.0.1:18081" ≠ "" ∧ Carried anEdge [.sync (pushing "")] "127.0.0.1:18081") := by
  refine ⟨by decide +kernel, ?_⟩
  rintro (hstatic | ⟨_, before, c, after, s, hb, p, hsplit, _, hex, hp, hupstream⟩)
  · revert hstatic
    decide
  · obtain ⟨rfl, rfl, rfl⟩ : before = [] ∧ c = pushing "" ∧ after = [] := by
      simpa [List.singleton_eq_append_iff] using hsplit
    rw [exchange_pushing hex hp] at hupstream
    revert hupstream
    decide

end Edgewarden.Agent
