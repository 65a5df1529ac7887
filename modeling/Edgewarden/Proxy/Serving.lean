/-
# Edgewarden.Proxy.Serving — the process around the handlers: `serve_until`, and the metrics bridge of `main`.

`serve_until` accepts connections until the shutdown signal, or until `accept` returns an error, whatever error
that is. The handlers of `Proxy.Server` go on without it. Every five seconds a task of its own copies two of
the counters into the metrics, one load and one store at a time, while the handlers go on counting.

* §1 is the process as a machine; its answers say which relays ended, and how.
* `proxy_drains`: once the listener has stopped no handler is spawned, the handlers have a bounded number of
  steps left between them, and when they are done everything is given back and every byte of a relay that
  ended with both sides closed is counted. Relays that failed or ran into the timeout count none.
* `proxy_exports`: the exported numbers are never invented. Each is what its counter was at an earlier moment,
  and a round of the bridge that meets no handler exports the present.
-/
import Edgewarden.Proxy.Server

namespace Edgewarden.Proxy

open Edgewarden.Calls Edgewarden.Gauge

/-! ## §1 The process. -/

/-- Where the bridge is: what it does next. -/
inductive BridgePhase
  /-- Waits for its tick, and loads `active`. -/
  | ticking
  /-- `active_connections.set`. -/
  | loadedActive (active : Nat)
  /-- Loads `total`. -/
  | gaugeSet
  /-- `connections_total.get()`. -/
  | loadedTotal (total : Nat)
  /-- `connections_total.inc_by`, of the difference if it is positive. -/
  | gotExported (total exported : Nat)
  deriving DecidableEq, Repr

/-- The two metrics that the bridge sets. -/
structure ProxyMetrics where
  activeConnections : Int64
  connectionsTotal : Nat
  deriving DecidableEq

structure Process where
  server : Server
  listening : Bool
  bridge : BridgePhase
  metrics : ProxyMetrics

inductive ProxyEvent
  /-- `listener.accept()` returns a connection. -/
  | accept
  /-- `listener.accept()` returns an error, and `?` ends `serve_until`. -/
  | acceptFailed
  /-- `shutdown.changed()`. -/
  | shutdown
  /-- Handler `i` takes its next step. -/
  | advance (i : Nat) (connect : ConnectOutcome) (relay : RelayOutcome)
  /-- The bridge takes its next step. -/
  | bridge
  deriving DecidableEq, Repr

def Process.bridgeStep (w : Process) : Process :=
  match w.bridge with
  | .ticking => { w with bridge := .loadedActive w.server.common.counters.active }
  | .loadedActive active =>
      { w with bridge := .gaugeSet, metrics := { w.metrics with activeConnections := Int64.ofNat active } }
  | .gaugeSet => { w with bridge := .loadedTotal w.server.common.counters.total }
  | .loadedTotal total => { w with bridge := .gotExported total w.metrics.connectionsTotal }
  | .gotExported total exported =>
      { w with
        bridge := .ticking
        metrics := { w.metrics with connectionsTotal := w.metrics.connectionsTotal + (total - exported) } }

def Process.step (w : Process) : ProxyEvent → Process
  | .accept => if w.listening then { w with server := w.server.step .accept } else w
  | .acceptFailed => { w with listening := false }
  | .shutdown => { w with listening := false }
  | .advance i connect relay => { w with server := w.server.step (.advance i connect relay) }
  | .bridge => w.bridgeStep

/-- The relay that ends with this event, if one does. -/
def Process.relayed (w : Process) : ProxyEvent → Option RelayOutcome
  | .advance i _ relay => if w.server.tasks[i]? = some .relaying then some relay else none
  | _ => none

/-- `main` of `edge-proxy`. -/
def proxy (maxConnections : UInt64) : Machine Process ProxyEvent (Option RelayOutcome) where
  init := ⟨(server maxConnections).init, true, .ticking, ⟨0, 0⟩⟩
  step w e := (w.relayed e, w.step e)

section Server

variable {capacity : Nat} {w : Process}

@[simp] theorem bridgeStep_server (w : Process) : w.bridgeStep.server = w.server := by
  unfold Process.bridgeStep
  split <;> rfl

@[simp] theorem bridgeStep_listening (w : Process) : w.bridgeStep.listening = w.listening := by
  unfold Process.bridgeStep
  split <;> rfl

theorem accept_exports (w : Process) : (w.step .accept).metrics = w.metrics ∧ (w.step .accept).bridge = w.bridge := by
  by_cases h : w.listening = true <;> simp [Process.step, h]

/-- What an event does to the handlers: nothing, or a step of theirs. -/
theorem step_server (w : Process) (e : ProxyEvent) :
    (w.step e).server = w.server ∨ ∃ e', (w.step e).server = w.server.step e' := by
  cases e with
  | accept =>
      by_cases h : w.listening = true
      · exact .inr ⟨.accept, by simp [Process.step, h]⟩
      · exact .inl (by simp [Process.step, h])
  | acceptFailed => exact .inl rfl
  | shutdown => exact .inl rfl
  | advance i connect relay => exact .inr ⟨.advance i connect relay, rfl⟩
  | bridge => exact .inl (bridgeStep_server w)

theorem proxy_balanced (maxConnections : UInt64) (events : List ProxyEvent) :
    Balanced (permitsFor maxConnections) ((proxy maxConnections).after events).server := by
  have hcap : permitsFor maxConnections ≤ 2 ^ 64 := by
    have := maxConnections.toNat_lt
    unfold permitsFor
    omega
  refine Machine.invariant (proxy maxConnections) (I := fun w => Balanced (permitsFor maxConnections) w.server)
    (balanced_after maxConnections []) ?_ events
  intro w e h
  show Balanced (permitsFor maxConnections) (w.step e).server
  rcases step_server w e with hsame | ⟨e', hstep⟩
  · exact hsame ▸ h
  · rw [hstep]
    exact h.step hcap e'

end Server

/-! ## §2 Bytes. -/

/-- Bytes from the client that a relay counts. -/
def RelayOutcome.c2u : RelayOutcome → Nat
  | .copied c2u _ => c2u
  | _ => 0

/-- Bytes from the upstream that a relay counts. -/
def RelayOutcome.u2c : RelayOutcome → Nat
  | .copied _ u2c => u2c
  | _ => 0

/-- What a handler has still to add to `bytes_in`. -/
def Phase.owesIn : Phase → Nat
  | .copied c2u _ => c2u
  | _ => 0

/-- What a handler has still to add to `bytes_out`. -/
def Phase.owesOut : Phase → Nat
  | .copied _ u2c => u2c
  | .copiedIn u2c => u2c
  | _ => 0

/-- The relays that have ended are counted, or owed. -/
structure Counted (relays : List RelayOutcome) (w : Server) : Prop where
  bytesIn : Owes Phase.owesIn w.tasks w.common.counters.bytesIn (relays.map RelayOutcome.c2u).sum
  bytesOut : Owes Phase.owesOut w.tasks w.common.counters.bytesOut (relays.map RelayOutcome.u2c).sum

/-- The bytes of the relay that ends with a step of phase `p`. -/
def Phase.ending (p : Phase) (relay : RelayOutcome) : Option RelayOutcome :=
  if p = .relaying then some relay else none

/-- **One step of one handler**: what it adds it owed, and what it owes has just ended. -/
theorem next_counted (p : Phase) (connect : ConnectOutcome) (relay : RelayOutcome) (s : Common) :
    (p.next connect relay s).2.counters.bytesIn + (p.next connect relay s).1.owesIn =
        s.counters.bytesIn + p.owesIn + ((p.ending relay).toList.map RelayOutcome.c2u).sum ∧
      (p.next connect relay s).2.counters.bytesOut + (p.next connect relay s).1.owesOut =
        s.counters.bytesOut + p.owesOut + ((p.ending relay).toList.map RelayOutcome.u2c).sum := by
  cases p with
  | spawned =>
      simp only [Phase.next]
      split <;> simp [Phase.owesIn, Phase.owesOut, Phase.ending]
  | connecting => cases connect <;> simp [Phase.next, Phase.owesIn, Phase.owesOut, Phase.ending]
  | relaying =>
      cases relay <;>
        simp [Phase.next, Phase.owesIn, Phase.owesOut, Phase.ending, RelayOutcome.c2u, RelayOutcome.u2c]
  | copied c2u u2c => simp [Phase.next, Phase.owesIn, Phase.owesOut, Phase.ending]
  | copiedIn u2c => simp [Phase.next, Phase.owesIn, Phase.owesOut, Phase.ending]
  | _ => exact ⟨rfl, rfl⟩

theorem Counted.step {relays : List RelayOutcome} {w : Process} (h : Counted relays w.server) (e : ProxyEvent) :
    Counted (relays ++ (w.relayed e).toList) (w.step e).server := by
  cases e with
  | accept =>
      by_cases hl : w.listening = true
      · simp only [Process.step, Process.relayed, hl, if_true, Option.toList_none, List.append_nil]
        have hin := h.bytesIn
        have hout := h.bytesOut
        refine ⟨?_, ?_⟩
        · simpa [Owes, Server.step, Phase.owesIn] using hin
        · simpa [Owes, Server.step, Phase.owesOut] using hout
      · simpa [Process.step, Process.relayed, hl] using h
  | acceptFailed => simpa [Process.step, Process.relayed] using h
  | shutdown => simpa [Process.step, Process.relayed] using h
  | bridge => simpa [Process.step, Process.relayed] using h
  | advance i connect relay =>
      simp only [Process.step, Process.relayed, Server.step]
      cases hi : w.server.tasks[i]? with
      | none => simpa using h
      | some p =>
          obtain ⟨hin, hout⟩ := next_counted p connect relay w.server.common
          have hending : (if some p = some Phase.relaying then some relay else none) = p.ending relay := by
            simp [Phase.ending]
          rw [hending]
          refine ⟨?_, ?_⟩
          · rw [List.map_append, List.sum_append]
            exact h.bytesIn.charge hi hin
          · rw [List.map_append, List.sum_append]
            exact h.bytesOut.charge hi hout

/-- The relays that have ended in a run. -/
def relays (maxConnections : UInt64) (events : List ProxyEvent) : List RelayOutcome :=
  ((proxy maxConnections).answers events).filterMap id

theorem proxy_counted (maxConnections : UInt64) (events : List ProxyEvent) :
    Counted (relays maxConnections events) ((proxy maxConnections).after events).server := by
  refine (proxy maxConnections).history
    (I := fun _ answers w => Counted (answers.filterMap id) w.server) ⟨rfl, rfl⟩ ?_ events
  intro events answers w e h
  rw [List.filterMap_append]
  show Counted (_ ++ List.filterMap id [w.relayed e]) (w.step e).server
  have hnext := h.step e
  cases hr : w.relayed e with
  | none => simpa [hr] using hnext
  | some relay => simpa [hr] using hnext

/-! ## §3 Draining. -/

/-- The most steps that a handler has left. -/
def Phase.remaining : Phase → Nat
  | .spawned => 9
  | .refusing => 2
  | .refused => 1
  | .admitted => 8
  | .counted => 7
  | .connecting => 6
  | .connectFailed => 3
  | .relaying => 5
  | .copied _ _ => 4
  | .copiedIn _ => 3
  | .relayFailed => 3
  | .closing _ => 2
  | .releasing _ => 1
  | .closed _ => 0
  | .turnedAway => 0

/-- The most steps that all handlers have left. -/
def Server.work (w : Server) : Nat := (w.tasks.map Phase.remaining).sum

/-- Handlers that have not finished. -/
def Server.unfinished (w : Server) : Nat := w.tasks.countP fun p => !p.finished

/-- The event is a step of a handler that has not finished. -/
def Process.progresses (w : Process) : ProxyEvent → Bool
  | .advance i _ _ => (w.server.tasks[i]?.map fun p => !p.finished).getD false
  | _ => false

/-- How many steps of handlers a run from `w` takes. -/
def Process.moves (w : Process) : List ProxyEvent → Nat
  | [] => 0
  | e :: rest => (w.progresses e).toNat + (w.step e).moves rest

section Drain

variable {w : Process} {p : Phase}

theorem remaining_eq_zero : p.remaining = 0 ↔ p.finished = true := by
  cases p <;> simp [Phase.remaining, Phase.finished]

/-- Every step of a handler brings it closer to its end. -/
theorem next_remaining (p : Phase) (connect : ConnectOutcome) (relay : RelayOutcome) (s : Common) :
    (p.next connect relay s).1.remaining + (!p.finished).toNat ≤ p.remaining := by
  cases p with
  | spawned =>
      simp only [Phase.next]
      split <;> simp [Phase.remaining, Phase.finished]
  | connecting => cases connect <;> simp [Phase.next, Phase.remaining, Phase.finished]
  | relaying => cases relay <;> simp [Phase.next, Phase.remaining, Phase.finished]
  | _ => simp [Phase.next, Phase.remaining, Phase.finished]

theorem work_le (w : Server) : w.work ≤ 9 * w.unfinished := by
  unfold Server.work Server.unfinished
  induction w.tasks with
  | nil => simp
  | cons p tasks ih =>
      have hp : p.remaining ≤ 9 * (!p.finished).toNat := by
        cases p <;> simp [Phase.remaining, Phase.finished]
      rw [List.map_cons, List.sum_cons, List.countP_cons]
      cases hf : p.finished <;> simp [hf] at hp ⊢ <;> omega

theorem work_eq_zero {w : Server} (h : w.work = 0) : ∀ p ∈ w.tasks, p.finished = true := by
  intro p hp
  have hle := List.single_le_sum (fun x _ => Nat.zero_le x) p.remaining (List.mem_map.mpr ⟨p, hp, rfl⟩)
  unfold Server.work at h
  exact remaining_eq_zero.mp (by omega)

/-- A process that does not listen, and its next event. -/
theorem stopped_step (hstopped : w.listening = false) (e : ProxyEvent) :
    (w.step e).listening = false ∧ (w.step e).server.tasks.length = w.server.tasks.length ∧
      (w.progresses e).toNat + (w.step e).server.work ≤ w.server.work := by
  cases e with
  | accept => simp [Process.step, Process.progresses, hstopped]
  | acceptFailed => simp [Process.step, Process.progresses]
  | shutdown => simp [Process.step, Process.progresses]
  | bridge => simp [Process.step, Process.progresses, hstopped]
  | advance i connect relay =>
      refine ⟨hstopped, ?_⟩
      simp only [Process.step, Process.progresses, Server.step]
      cases hi : w.server.tasks[i]? with
      | none => simp
      | some p =>
          have hnext := next_remaining p connect relay w.server.common
          have hmove := sum_move (w := Phase.remaining) (q := (p.next connect relay w.server.common).1) hi
          simp only [List.length_set, Option.map_some, Option.getD_some, true_and, Server.work]
          omega

/-- ... and any number of events. -/
theorem stopped_run (hstopped : w.listening = false) (more : List ProxyEvent) :
    (more.foldl Process.step w).listening = false ∧
      (more.foldl Process.step w).server.tasks.length = w.server.tasks.length ∧
      w.moves more + (more.foldl Process.step w).server.work ≤ w.server.work := by
  induction more generalizing w with
  | nil => simp [hstopped, Process.moves]
  | cons e more ih =>
      obtain ⟨hlistening, hlength, hwork⟩ := stopped_step hstopped e
      obtain ⟨hlistening', hlength', hwork'⟩ := ih hlistening
      refine ⟨hlistening', hlength'.trans hlength, ?_⟩
      simp only [Process.moves, List.foldl_cons]
      omega

/-- **The proxy drains.** In every run, once the listener has stopped, by the signal or by an error of `accept`,
and whatever happens then: it stays stopped and no handler is spawned; the handlers take at most nine steps for
each one that had not finished; and when they have none left, no connection is active, all permits are free, and
the byte counters are exactly what the relays have copied that ended with both sides closed. -/
theorem proxy_drains (maxConnections : UInt64) (events more : List ProxyEvent)
    (hstopped : ((proxy maxConnections).after events).listening = false) :
    let w := (proxy maxConnections).after events
    let w' := (proxy maxConnections).after (events ++ more)
    w'.listening = false ∧ w'.server.tasks.length = w.server.tasks.length ∧
      w.moves more + w'.server.work ≤ 9 * w.server.unfinished ∧
      (w'.server.work = 0 →
        w'.server.common.counters.active = 0 ∧ w'.server.common.permits = max 1 maxConnections.toNat ∧
        w'.server.common.counters.bytesIn =
          ((relays maxConnections (events ++ more)).map RelayOutcome.c2u).sum ∧
        w'.server.common.counters.bytesOut =
          ((relays maxConnections (events ++ more)).map RelayOutcome.u2c).sum) := by
  intro w w'
  have hrun : w' = more.foldl Process.step w := by
    simp [w, w', Machine.after, proxy]
  obtain ⟨hlistening, hlength, hwork⟩ := stopped_run hstopped more
  have hbound := work_le w.server
  refine ⟨hrun ▸ hlistening, hrun ▸ hlength, ?_, ?_⟩
  · rw [hrun]
    exact hwork.trans hbound
  · intro hdone
    have hbalanced : Balanced (permitsFor maxConnections) w'.server := proxy_balanced maxConnections (events ++ more)
    have hcounted : Counted (relays maxConnections (events ++ more)) w'.server :=
      proxy_counted maxConnections (events ++ more)
    have hfinished := work_eq_zero hdone
    have hheld : w'.server.held = 0 := by
      refine Reads.none (f := Phase.holdsPermit) rfl fun p hp => ?_
      rcases finished_cases (hfinished p hp) with ⟨_, rfl⟩ | rfl <;> rfl
    have hactive := hbalanced.active_le
    have hpermits := hbalanced.permits
    have hcapacity : permitsFor maxConnections = max 1 maxConnections.toNat := Nat.max_comm _ _
    refine ⟨by omega, by omega, hcounted.bytesIn.settled ?_, hcounted.bytesOut.settled ?_⟩
    · intro p hp
      rcases finished_cases (hfinished p hp) with ⟨_, rfl⟩ | rfl <;> rfl
    · intro p hp
      rcases finished_cases (hfinished p hp) with ⟨_, rfl⟩ | rfl <;> rfl

/-- One connection, accepted before the signal and closed after it. -/
theorem proxy_drains_one :
    let w := (proxy 1).after ([.accept, .shutdown] ++ List.replicate 9 (.advance 0 .connected (.copied 3 5)))
    w.server.common.counters.active = 0 ∧ w.server.common.permits = 1 ∧
      w.server.common.counters.bytesIn = 3 ∧ w.server.common.counters.bytesOut = 5 :=
  (proxy_drains 1 [.accept, .shutdown] (List.replicate 9 (.advance 0 .connected (.copied 3 5))) rfl).2.2.2
    (by decide +kernel)

end Drain

/-! ## §4 The bridge. -/

section Bridge

variable {maxConnections : UInt64} {events : List ProxyEvent}

/-- The counters after a run. -/
def countersAt (maxConnections : UInt64) (events : List ProxyEvent) : ConnectionCounters :=
  ((proxy maxConnections).after events).server.common.counters

theorem next_total (p : Phase) (connect : ConnectOutcome) (relay : RelayOutcome) (s : Common) :
    s.counters.total ≤ (p.next connect relay s).2.counters.total := by
  -- field by field, so that no two values of `active` are compared
  obtain ⟨permits, total, active, refused, errors, bytesIn, bytesOut⟩ := s
  cases p with
  | spawned =>
      simp only [Phase.next]
      split <;> exact Nat.le_refl _
  | admitted => exact Nat.le_succ _
  | connecting => cases connect <;> exact Nat.le_refl _
  | relaying => cases relay <;> exact Nat.le_refl _
  | _ => exact Nat.le_refl total

theorem step_total (w : Process) (e : ProxyEvent) :
    w.server.common.counters.total ≤ (w.step e).server.common.counters.total := by
  rcases step_server w e with hsame | ⟨e', hstep⟩
  · rw [hsame]
  · rw [hstep]
    cases e' with
    | accept => exact Nat.le_refl _
    | advance i connect relay =>
        simp only [Server.step]
        split
        · exact next_total _ connect relay _
        · exact Nat.le_refl _

/-- `total` never goes down. -/
theorem total_mono {before : List ProxyEvent} (h : before <+: events) :
    (countersAt maxConnections before).total ≤ (countersAt maxConnections events).total := by
  obtain ⟨more, rfl⟩ := h
  induction more using List.reverseRecOn with
  | nil => rw [List.append_nil]
  | append_singleton more e ih =>
      refine ih.trans ?_
      unfold countersAt
      rw [← List.append_assoc, Machine.after_snoc]
      exact step_total _ e

/-- `total` was `n` at some moment of the run. -/
def WasTotal (maxConnections : UInt64) (events : List ProxyEvent) (n : Nat) : Prop :=
  ∃ before, before <+: events ∧ n = (countersAt maxConnections before).total

/-- `active` was `n` at some moment of the run. -/
def WasActive (maxConnections : UInt64) (events : List ProxyEvent) (n : Nat) : Prop :=
  ∃ before, before <+: events ∧ n = (countersAt maxConnections before).active

/-- What the bridge has in its hands. -/
def Holding (maxConnections : UInt64) (events : List ProxyEvent) (exported : Nat) : BridgePhase → Prop
  | .loadedActive active => WasActive maxConnections events active
  | .loadedTotal total => WasTotal maxConnections events total ∧ exported ≤ total
  | .gotExported total got => WasTotal maxConnections events total ∧ got = exported ∧ exported ≤ total
  | _ => True

/-- What is exported was true. -/
structure Exports (maxConnections : UInt64) (events : List ProxyEvent) (w : Process) : Prop where
  total : WasTotal maxConnections events w.metrics.connectionsTotal
  active : ∃ n, WasActive maxConnections events n ∧ w.metrics.activeConnections = Int64.ofNat n
  bridge : Holding maxConnections events w.metrics.connectionsTotal w.bridge

theorem WasTotal.later {n : Nat} (h : WasTotal maxConnections events n) (e : ProxyEvent) :
    WasTotal maxConnections (events ++ [e]) n := by
  obtain ⟨before, hbefore, rfl⟩ := h
  exact ⟨before, hbefore.trans (List.prefix_append _ _), rfl⟩

theorem WasActive.later {n : Nat} (h : WasActive maxConnections events n) (e : ProxyEvent) :
    WasActive maxConnections (events ++ [e]) n := by
  obtain ⟨before, hbefore, rfl⟩ := h
  exact ⟨before, hbefore.trans (List.prefix_append _ _), rfl⟩

theorem WasTotal.le {n : Nat} (h : WasTotal maxConnections events n) :
    n ≤ (countersAt maxConnections events).total := by
  obtain ⟨before, hbefore, rfl⟩ := h
  exact total_mono hbefore

theorem Exports.later {w w' : Process} (h : Exports maxConnections events w) (e : ProxyEvent)
    (hmetrics : w'.metrics = w.metrics) (hbridge : w'.bridge = w.bridge) :
    Exports maxConnections (events ++ [e]) w' := by
  obtain ⟨htotal, ⟨n, hn, hactive⟩, hholding⟩ := h
  refine ⟨?_, ⟨n, hn.later e, ?_⟩, ?_⟩
  · rw [hmetrics]
    exact htotal.later e
  · rw [hmetrics]
    exact hactive
  · rw [hmetrics, hbridge]
    cases hphase : w.bridge with
    | ticking => trivial
    | gaugeSet => trivial
    | loadedActive active =>
        rw [hphase] at hholding
        exact WasActive.later hholding e
    | loadedTotal total =>
        rw [hphase] at hholding
        exact ⟨hholding.1.later e, hholding.2⟩
    | gotExported total got =>
        rw [hphase] at hholding
        exact ⟨hholding.1.later e, hholding.2⟩

/-- A step of the bridge. -/
theorem Exports.bridged {w : Process} (h : Exports maxConnections events w)
    (hw : w = (proxy maxConnections).after events) :
    Exports maxConnections (events ++ [.bridge]) w.bridgeStep := by
  have hlater : Exports maxConnections (events ++ [.bridge]) w := h.later .bridge rfl rfl
  obtain ⟨htotal, hactive, hholding⟩ := hlater
  unfold Process.bridgeStep
  cases hphase : w.bridge with
  | ticking =>
      refine ⟨htotal, hactive, events, List.prefix_append _ _, ?_⟩
      rw [hw]
      rfl
  | loadedActive active =>
      rw [hphase] at hholding
      exact ⟨htotal, ⟨active, hholding, rfl⟩, trivial⟩
  | gaugeSet =>
      have hnow : w.server.common.counters.total = (countersAt maxConnections events).total := by
        rw [hw]
        rfl
      refine ⟨htotal, hactive, ⟨events, List.prefix_append _ _, hnow⟩, ?_⟩
      show w.metrics.connectionsTotal ≤ w.server.common.counters.total
      rw [hnow]
      exact h.total.le
  | loadedTotal total =>
      rw [hphase] at hholding
      exact ⟨htotal, hactive, hholding.1, rfl, hholding.2⟩
  | gotExported total got =>
      rw [hphase] at hholding
      obtain ⟨hwas, rfl, hle⟩ := hholding
      refine ⟨?_, hactive, trivial⟩
      -- the difference is added to the number it was taken from
      show WasTotal _ _ (w.metrics.connectionsTotal + (total - w.metrics.connectionsTotal))
      rw [Nat.add_sub_cancel' hle]
      exact hwas

theorem proxy_exported (maxConnections : UInt64) (events : List ProxyEvent) :
    Exports maxConnections events ((proxy maxConnections).after events) := by
  induction events using List.reverseRecOn with
  | nil => exact ⟨⟨[], List.prefix_refl _, rfl⟩, ⟨0, ⟨[], List.prefix_refl _, rfl⟩, rfl⟩, trivial⟩
  | append_singleton events e ih =>
      rw [Machine.after_snoc]
      show Exports maxConnections (events ++ [e]) (((proxy maxConnections).after events).step e)
      cases e with
      | accept => exact ih.later _ (accept_exports _).1 (accept_exports _).2
      | acceptFailed => exact ih.later _ rfl rfl
      | shutdown => exact ih.later _ rfl rfl
      | advance i connect relay => exact ih.later _ rfl rfl
      | bridge => exact ih.bridged rfl

/-- A round of the bridge that meets no handler. -/
theorem bridge_round {w : Process} (hticking : w.bridge = .ticking)
    (hle : w.metrics.connectionsTotal ≤ w.server.common.counters.total) :
    (List.replicate 5 ProxyEvent.bridge).foldl Process.step w =
      { w with
        metrics := ⟨Int64.ofNat w.server.common.counters.active, w.server.common.counters.total⟩ } := by
  simp [List.replicate, Process.step, Process.bridgeStep, hticking, Nat.add_sub_cancel' hle]

/-- **What the proxy exports was true.** In every interleaving of the bridge with the handlers:
`edge_proxy_connections_total` and `edge_proxy_active_connections` are what the counters were at earlier moments
of the run, the latter within the connection limit; the former is never ahead of its counter and never goes
down; and a round of the bridge that meets no handler exports the present values. -/
theorem proxy_exports (maxConnections : UInt64) (events : List ProxyEvent) :
    let w := (proxy maxConnections).after events
    WasTotal maxConnections events w.metrics.connectionsTotal ∧
      w.metrics.connectionsTotal ≤ w.server.common.counters.total ∧
      (∃ n ≤ max 1 maxConnections.toNat, WasActive maxConnections events n ∧
        w.metrics.activeConnections = Int64.ofNat n) ∧
      (∀ e, w.metrics.connectionsTotal ≤
        ((proxy maxConnections).after (events ++ [e])).metrics.connectionsTotal) ∧
      (w.bridge = .ticking →
        ((proxy maxConnections).after (events ++ List.replicate 5 .bridge)).metrics =
          ⟨Int64.ofNat w.server.common.counters.active, w.server.common.counters.total⟩) := by
  intro w
  have h : Exports maxConnections events w := proxy_exported maxConnections events
  refine ⟨h.total, h.total.le, ?_, ?_, ?_⟩
  · obtain ⟨n, hn, hactive⟩ := h.active
    refine ⟨n, ?_, hn, hactive⟩
    obtain ⟨before, _, rfl⟩ := hn
    have hbalanced := proxy_balanced maxConnections before
    have hle := hbalanced.active_le
    have hpermits := hbalanced.permits
    have hcapacity : permitsFor maxConnections = max 1 maxConnections.toNat := Nat.max_comm _ _
    unfold countersAt
    omega
  · intro e
    rw [Machine.after_snoc]
    show w.metrics.connectionsTotal ≤ (w.step e).metrics.connectionsTotal
    cases e with
    | accept => rw [(accept_exports w).1]
    | bridge =>
        simp only [Process.step, Process.bridgeStep]
        split
        case h_5 => exact Nat.le_add_right _ _
        all_goals exact Nat.le_refl _
    | _ => exact Nat.le_refl _
  · intro hticking
    have hrun : (proxy maxConnections).after (events ++ List.replicate 5 .bridge) =
        (List.replicate 5 ProxyEvent.bridge).foldl Process.step w := by
      simp only [w, Machine.after, List.foldl_append]
      rfl
    rw [hrun, bridge_round hticking h.total.le]

end Bridge

end Edgewarden.Proxy
