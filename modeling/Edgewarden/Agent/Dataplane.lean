/-
# Edgewarden.Agent.Dataplane — the whole of `edge-agent/src/main.rs`: which policy the proxy serves.

`main` opens the state store twice: once as a probe, from which it configures the proxy, and once more for the
agent that then syncs. The two never meet again. `sync_once` applies policies to the store, and no line of the
program hands them to the proxy.

* §1 is a boot, with whatever DNS answers and whichever reads of the state file fail, and a run of boots, cycles
  and stops. A boot that fails ends the process; a proxy that cannot bind does not.
* `dataplane_fixed_at_boot`: a running proxy serves the last-known-good policy of the latest boot, which is the
  compiled default or was received before it, whatever the agent has applied and reported since. The run after
  it is one in which the agent reports a limit that the proxy does not enforce.

`SocketAddr` is a type parameter; `parse` and DNS are given with each run and each boot.
-/
import Edgewarden.Agent.Boot

namespace Edgewarden.Agent

open Edgewarden.FaultIo Edgewarden.Registry Edgewarden.Serde Edgewarden.State

/-! ## §1 Boots. -/

section Boots

variable {α : Type}

/-- `edge_proxy::ProxyConfig`. -/
structure ProxyConfig (α : Type) where
  listenAddr : α
  upstreamAddr : α
  maxConnections : Nat
  connectTimeoutSecs : UInt64
  idleTimeoutSecs : UInt64
  transparent : Bool
  deriving DecidableEq, Repr

/-- The arguments of the program that the dataplane depends on, and how a text is read as an address. -/
structure Args (α : Type) where
  agent : AgentConfig
  listen : α
  upstream : String
  parse : String → Option α

/-- What a boot meets: DNS at its two lookups, the faults of its two reads of the state file, and the port. -/
structure Boot (α : Type) where
  lookupStatic : String → Except String (List α)
  lookupPolicy : String → Except String (List α)
  probeFaults : List (Fault StoreTear)
  faults : List (Fault StoreTear)
  binds : Bool

/-- `resolve_upstream`: the first address that DNS has. -/
def resolveUpstream (parse : String → Option α) (lookupHost : String → Except String (List α)) (spec : String) :
    Except String α :=
  match parse spec with
  | some addr => .ok addr
  | none =>
      match lookupHost spec with
      | .error _ => .error s!"DNS lookup for upstream {spec}"
      | .ok [] => .error s!"DNS for upstream {spec} returned no addresses"
      | .ok (addr :: _) => .ok addr

/-- `policy_upstream`, resolved. A policy upstream that does not resolve is ignored. -/
def Boot.policyAddr (b : Boot α) (args : Args α) (s : StateStore) : Option α :=
  (policyUpstream s).bind fun spec => (resolveUpstream args.parse b.lookupPolicy spec).toOption

def Boot.proxyConfig (b : Boot α) (args : Args α) (staticAddr : α) (s : StateStore) : ProxyConfig α where
  listenAddr := args.listen
  upstreamAddr := (b.policyAddr args s).getD staticAddr
  maxConnections := s.lastGoodPolicy.maxConnections.toNat
  connectTimeoutSecs := 5
  idleTimeoutSecs := s.lastGoodPolicy.idleTimeoutSecs
  transparent := false

/-- The agent of the process, and the configuration of its proxy if that serves. -/
structure Edge (α : Type) where
  agent : AgentWorld
  proxy : Option (ProxyConfig α)

def Boot.run (b : Boot α) (args : Args α) (disk : StoreDisk) : Edge α :=
  let probe := openRun b.probeFaults disk
  match probe.mem, resolveUpstream args.parse b.lookupStatic args.upstream with
  | some s, .ok staticAddr =>
      let agent := openRun b.faults probe.disk
      -- an agent that does not open ends `main`, and the proxy with it
      ⟨agent, if agent.mem.isSome && b.binds then some (b.proxyConfig args staticAddr s) else none⟩
  | _, _ => ⟨⟨none, probe.disk⟩, none⟩

inductive EdgeEvent (α : Type)
  /-- The process is started, or started anew. -/
  | boot (b : Boot α)
  | cycle (c : Cycle)
  | stop

def Edge.step (args : Args α) (w : Edge α) : EdgeEvent α → Edge α
  | .boot b => b.run args w.agent.disk
  | .cycle c =>
      let agent := agentStep args.agent w.agent (.sync c)
      ⟨agent, if agent.mem.isSome then w.proxy else none⟩
  | .stop => ⟨⟨none, w.agent.disk⟩, none⟩

/-- An edge without a state file that has not been booted yet, after the events of a list. -/
def edgeAfter (args : Args α) (events : List (EdgeEvent α)) : Edge α :=
  events.foldl (Edge.step args) ⟨⟨none, ⟨none, none⟩⟩, none⟩

theorem edgeAfter_snoc (args : Args α) (events : List (EdgeEvent α)) (e : EdgeEvent α) :
    edgeAfter args (events ++ [e]) = (edgeAfter args events).step args e := by
  simp [edgeAfter]

/-- **Everything a boot can do**: the process ends, or the agent is open and the proxy serves or does not. -/
theorem Boot.outcome (b : Boot α) (args : Args α) (disk : StoreDisk) :
    b.run args disk = ⟨⟨none, (openRun b.probeFaults disk).disk⟩, none⟩ ∨
      ∃ s staticAddr, (openRun b.probeFaults disk).mem = some s ∧
        resolveUpstream args.parse b.lookupStatic args.upstream = .ok staticAddr ∧
        (b.run args disk).agent = openRun b.faults (openRun b.probeFaults disk).disk ∧
        ∀ px, (b.run args disk).proxy = some px → px = b.proxyConfig args staticAddr s := by
  unfold Boot.run
  cases hmem : (openRun b.probeFaults disk).mem with
  | none => exact .inl (by simp only [hmem])
  | some s =>
      cases hstatic : resolveUpstream args.parse b.lookupStatic args.upstream with
      | error e => exact .inl (by simp only [hmem])
      | ok staticAddr =>
          refine .inr ⟨s, staticAddr, rfl, rfl, by simp only [hmem], ?_⟩
          intro px hpx
          simp only [hmem] at hpx
          split at hpx
          · exact (Option.some.inj hpx).symm
          · cases hpx

end Boots

/-! ## §2 Where the policies of an edge come from. -/

section Sent

variable {α : Type} {args : Args α} {events : List (EdgeEvent α)}

/-- The compiled default, or a policy that a heartbeat response of the run carried, as the agent completes it. -/
inductive SentTo (args : Args α) : List (EdgeEvent α) → Policy → Prop
  | compiled (events : List (EdgeEvent α)) : SentTo args events .default
  | received {before after : List (EdgeEvent α)} {c : Cycle} {s : StateStore} {hb : HeartbeatResponse} {p : Policy} :
      (edgeAfter args before).agent.mem = some s → c.exchange args.agent s = .ok hb → hb.policy = some p →
      SentTo args (before ++ .cycle c :: after) (completed s.lastGoodPolicy p)

/-- The store reports the version of its policy, and that policy was sent to the edge. -/
abbrev FromCloud (args : Args α) (events : List (EdgeEvent α)) (s : StateStore) : Prop :=
  PolicyFrom (SentTo args events) s

theorem SentTo.later {p : Policy} (h : SentTo args events p) (e : EdgeEvent α) : SentTo args (events ++ [e]) p := by
  cases h with
  | compiled _ => exact .compiled _
  | received hmem hex hp =>
      rw [List.append_assoc]
      exact .received hmem hex hp

/-- What a boot makes of good stores. -/
theorem keeps_boot {Good : StateStore → Prop} {w : AgentWorld} (h : Keeps Good w) (hfresh : Good .fresh)
    (b : Boot α) (args : Args α) : Keeps Good (b.run args w.disk).agent := by
  have hprobe := h.opened hfresh b.probeFaults
  rcases b.outcome args w.disk with hends | ⟨s, staticAddr, _, _, hagent, _⟩
  · rw [hends]
    exact ⟨fun _ hs => (by cases hs), hprobe.file⟩
  · rw [hagent]
    exact hprobe.opened hfresh b.faults

theorem fromCloud_after (args : Args α) (events : List (EdgeEvent α)) :
    Keeps (FromCloud args events) (edgeAfter args events).agent := by
  induction events using List.reverseRecOn with
  | nil => exact ⟨fun _ hs => (by cases hs), .inl rfl⟩
  | append_singleton events e ih =>
      have hlater : Keeps (FromCloud args (events ++ [e])) (edgeAfter args events).agent :=
        ih.mono fun s hs => hs.mono fun _ hp => hp.later e
      rw [edgeAfter_snoc]
      cases e with
      | stop => exact ⟨fun _ hs => (by cases hs), hlater.file⟩
      | boot b => exact keeps_boot hlater (policyFrom_fresh (.compiled _)) b args
      | cycle c =>
          show Keeps _ (agentStep args.agent (edgeAfter args events).agent (.sync c))
          refine hlater.step_policyFrom (.compiled _) ?_
          rintro _ s hb p ⟨⟩ hmem hex hp
          exact .received hmem hex hp

end Sent

/-! ## §3 The dataplane. -/

section Dataplane

variable {α : Type} {args : Args α} {events : List (EdgeEvent α)}

/-- The configuration was made by the latest boot, out of the store that it found. -/
structure BootedWith (args : Args α) (before : List (EdgeEvent α)) (b : Boot α) (s : StateStore)
    (px : ProxyConfig α) : Prop where
  found : reopened (edgeAfter args before).agent.disk = .ok s
  fromCloud : FromCloud args before s
  config : ∃ staticAddr, resolveUpstream args.parse b.lookupStatic args.upstream = .ok staticAddr ∧
    px = b.proxyConfig args staticAddr s

/-- What an opening finds is what is there. -/
theorem reopened_of_openRun {faults : List (Fault StoreTear)} {disk : StoreDisk} {s : StateStore}
    (h : (openRun faults disk).mem = some s) : reopened disk = .ok s := by
  rcases (open_outcome faults disk).2 s h with ⟨hnone, rfl⟩ | ⟨contents, hcontents, hdecode⟩
  · unfold reopened
    rw [hnone]
    rfl
  · unfold reopened
    rw [hcontents]
    exact hdecode

/-- The proxy that a boot starts. -/
theorem bootedWith_run {px : ProxyConfig α} {b : Boot α}
    (h : (b.run args (edgeAfter args events).agent.disk).proxy = some px) : ∃ s, BootedWith args events b s px := by
  have hprobe := (fromCloud_after args events).opened (policyFrom_fresh (.compiled events)) b.probeFaults
  rcases b.outcome args (edgeAfter args events).agent.disk with hends | ⟨s, staticAddr, hmem, hstatic, _, hproxy⟩
  · rw [hends] at h
    cases h
  · exact ⟨s, reopened_of_openRun hmem, hprobe.mem s hmem, staticAddr, hstatic, hproxy px h⟩

/-- A running proxy and its boot. -/
theorem bootedWith_after {px : ProxyConfig α} (h : (edgeAfter args events).proxy = some px) :
    ∃ before b cycles s, events = before ++ .boot b :: cycles ∧ (∀ e ∈ cycles, ∃ c, e = .cycle c) ∧
      BootedWith args before b s px := by
  induction events using List.reverseRecOn with
  | nil => cases h
  | append_singleton events e ih =>
      rw [edgeAfter_snoc] at h
      cases e with
      | stop => cases h
      | boot b =>
          obtain ⟨s, hs⟩ := bootedWith_run h
          exact ⟨events, b, [], s, rfl, fun _ he => (by cases he), hs⟩
      | cycle c =>
          simp only [Edge.step] at h
          split at h
          · obtain ⟨before, b, cycles, s, rfl, hcycles, hs⟩ := ih h
            refine ⟨before, b, cycles ++ [.cycle c], s, by simp, ?_, hs⟩
            intro e he
            rcases List.mem_append.mp he with he | he
            · exact hcycles e he
            · exact ⟨c, List.mem_singleton.mp he⟩
          · cases h

/-- The upstream of a configuration. -/
theorem proxyConfig_upstreamAddr {b : Boot α} {staticAddr : α} (s : StateStore)
    (hstatic : resolveUpstream args.parse b.lookupStatic args.upstream = .ok staticAddr) :
    resolveUpstream args.parse b.lookupStatic args.upstream = .ok (b.proxyConfig args staticAddr s).upstreamAddr ∨
      hasSyncedPolicy s = true ∧ resolveUpstream args.parse b.lookupPolicy s.lastGoodPolicy.defaultUpstream =
        .ok (b.proxyConfig args staticAddr s).upstreamAddr := by
  show _ = Except.ok ((b.policyAddr args s).getD staticAddr) ∨ _ ∧ _ = Except.ok ((b.policyAddr args s).getD staticAddr)
  unfold Boot.policyAddr policyUpstream
  split
  · rename_i hpolicy
    cases haddr : resolveUpstream args.parse b.lookupPolicy s.lastGoodPolicy.defaultUpstream with
    | error e =>
        left
        simp [haddr, Except.toOption, hstatic]
    | ok addr =>
        right
        simp [haddr, Except.toOption, hpolicy.1]
  · exact .inl hstatic

/-- **The dataplane is fixed at boot.** In every run of boots, cycles and stops, whatever DNS answers, whichever
reads and writes of the state file fail and wherever the process dies: if the proxy serves with configuration
`px`, then the run ends in a boot and cycles alone, and `px` is made of the store `s` that this boot found in the
state file: its limits are those of the last-known-good policy of `s`, its upstream that of the policy or the
static one, and the policy is the compiled default or was received BEFORE the boot. -/
theorem dataplane_fixed_at_boot (args : Args α) (events : List (EdgeEvent α)) (px : ProxyConfig α)
    (h : (edgeAfter args events).proxy = some px) :
    ∃ before b cycles s, events = before ++ .boot b :: cycles ∧ (∀ e ∈ cycles, ∃ c, e = .cycle c) ∧
      BootedWith args before b s px ∧ px.maxConnections = s.lastGoodPolicy.maxConnections.toNat ∧
      px.idleTimeoutSecs = s.lastGoodPolicy.idleTimeoutSecs ∧
      (resolveUpstream args.parse b.lookupStatic args.upstream = .ok px.upstreamAddr ∨
        hasSyncedPolicy s = true ∧
          resolveUpstream args.parse b.lookupPolicy s.lastGoodPolicy.defaultUpstream = .ok px.upstreamAddr) := by
  obtain ⟨before, b, cycles, s, hevents, hcycles, hbooted⟩ := bootedWith_after h
  obtain ⟨staticAddr, hstatic, rfl⟩ := hbooted.config
  exact ⟨before, b, cycles, s, hevents, hcycles, hbooted, rfl, rfl, proxyConfig_upstreamAddr s hstatic⟩

end Dataplane

/-- An edge on literal addresses. -/
def onLiterals : Args String := ⟨anEdge, "127.0.0.1:18080", "10.0.0.1:80", some⟩

/-- A boot at which nothing goes wrong. -/
def plainBoot : Boot String := ⟨fun _ => .ok [], fun _ => .ok [], [], [], true⟩

/-- The control plane limits the edge to 64 connections, with version 7. -/
def limiting : Cycle where
  link :=
    { connect := .ok ()
      register := fun _ => .ok ⟨true, 7, some { Policy.default with version := 7, maxConnections := 64 }, ""⟩
      heartbeat := fun _ =>
        .ok ⟨7, some { Policy.default with version := 7, maxConnections := 64 }, true, "", 1⟩ }
  usage := ⟨F64.zero, 0, 0, 0⟩
  activeConnections := 0
  faults := []

/-- The configuration of a new edge. -/
def compiledConfig : ProxyConfig String := ⟨"127.0.0.1:18080", "10.0.0.1:80", 512, 5, 300, false⟩

theorem dataplane_fixed_at_boot_limiting :
    ∃ before b cycles s, [.boot plainBoot, .cycle limiting] = before ++ .boot b :: cycles ∧
      (∀ e ∈ cycles, ∃ c, e = .cycle c) ∧ BootedWith onLiterals before b s compiledConfig ∧
      compiledConfig.maxConnections = s.lastGoodPolicy.maxConnections.toNat ∧
      compiledConfig.idleTimeoutSecs = s.lastGoodPolicy.idleTimeoutSecs ∧
      (resolveUpstream onLiterals.parse b.lookupStatic onLiterals.upstream = .ok compiledConfig.upstreamAddr ∨
        hasSyncedPolicy s = true ∧
          resolveUpstream onLiterals.parse b.lookupPolicy s.lastGoodPolicy.defaultUpstream =
            .ok compiledConfig.upstreamAddr) :=
  dataplane_fixed_at_boot onLiterals [.boot plainBoot, .cycle limiting] compiledConfig (by decide +kernel)

-- The agent reports version 7, whose limit is 64, and the proxy serves up to 512 connections until the next boot.
example :
    let w := edgeAfter onLiterals [.boot plainBoot, .cycle limiting]
    let w' := edgeAfter onLiterals [.boot plainBoot, .cycle limiting, .boot plainBoot]
    w.agent.mem.map (fun s => (s.reported.policyVersion, s.lastGoodPolicy.maxConnections)) = some (7, 64) ∧
      w.proxy = some compiledConfig ∧
      w'.proxy.map (fun px => px.maxConnections) = some 64 := by
  decide +kernel

end Edgewarden.Agent
