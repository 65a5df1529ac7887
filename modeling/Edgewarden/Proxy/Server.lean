/-
# Edgewarden.Proxy.Server — `edge-proxy/src/server.rs`: the handlers of one proxy and what they count.

`serve_until` spawns a `handle_one` task for every connection it accepts. The tasks share a semaphore and
the counters, and between any two of their atomic steps every other task may take any number of its own.

* §1 is `handle_one`, one phase for each atomic step: `try_acquire_owned`, each `fetch_add` and `fetch_sub`,
  the outcome of the connect, the outcome of the relay, and the drop of the permit at the end.
* §2 reads every counter as a gauge of phases. The order of a task's steps is in the phases that a gauge
  counts: a task is counted as active strictly while it holds its permit.
* `connections_accounted` is the result over all interleavings.

The counters count events since the process started, so an increment is exact up to `2^64 - 1`. A decrement at zero would
wrap, so `fetch_sub` is modelled with its wrap. A task that is cancelled or panics is not modelled.
-/
import Edgewarden.Lib.Gauge
import Edgewarden.Lib.Machine
import Mathlib.Algebra.Group.Nat.Defs

namespace Edgewarden.Proxy

open Edgewarden.Calls Edgewarden.Gauge

/-! ## §1 Handlers. -/

/-- `AtomicU64`s: what is below `2^64` is exact. -/
structure ConnectionCounters where
  total : Nat
  active : Nat
  refusedOverLimit : Nat
  errors : Nat
  bytesIn : Nat
  bytesOut : Nat
  deriving DecidableEq, Repr

/-- `ConnectionCounters::default()`. -/
def ConnectionCounters.zero : ConnectionCounters := ⟨0, 0, 0, 0, 0, 0⟩

/-- `AtomicU64::fetch_sub(1)`. -/
def fetchSub (n : Nat) : Nat := (n + (2 ^ 64 - 1)) % 2 ^ 64

/-- What `timeout(connect_timeout, TcpStream::connect(..))` comes to. -/
inductive ConnectOutcome
  | connected
  | failed
  | timedOut
  deriving DecidableEq, Repr

/-- What `timeout(idle_timeout, copy_bidirectional(..))` comes to. -/
inductive RelayOutcome
  | copied (c2u u2c : Nat)
  | failed
  | idle
  deriving DecidableEq, Repr

/-- Where a `handle_one` task stands: what it does next. -/
inductive Phase
  /-- `try_acquire_owned`. -/
  | spawned
  /-- Over the limit: `refused_over_limit.fetch_add`. -/
  | refusing
  /-- ... and `errors.fetch_add`. -/
  | refused
  /-- `total.fetch_add`. -/
  | admitted
  /-- `active.fetch_add`. -/
  | counted
  /-- Waits for the upstream. -/
  | connecting
  /-- No upstream: `errors.fetch_add`. -/
  | connectFailed
  /-- Waits for the relay. -/
  | relaying
  /-- `bytes_in.fetch_add`. -/
  | copied (c2u u2c : Nat)
  /-- `bytes_out.fetch_add`. -/
  | copiedIn (u2c : Nat)
  /-- The relay failed: `errors.fetch_add`. -/
  | relayFailed
  /-- `active.fetch_sub`. -/
  | closing (failed : Bool)
  /-- The drop of the permit. -/
  | releasing (failed : Bool)
  | closed (failed : Bool)
  | turnedAway
  deriving DecidableEq, Repr

/-- The semaphore's free permits and the counters. -/
structure Common where
  permits : Nat
  counters : ConnectionCounters
  deriving DecidableEq, Repr

/-- The next atomic step of `handle_one`. The outcomes are those of this step, if it is one that has one. -/
def Phase.next (p : Phase) (connect : ConnectOutcome) (relay : RelayOutcome) (s : Common) : Phase × Common :=
  let c := s.counters
  match p with
  -- `try_acquire` does not wait
  | .spawned => if 0 < s.permits then (.admitted, { s with permits := s.permits - 1 }) else (.refusing, s)
  | .refusing => (.refused, { s with counters := { c with refusedOverLimit := c.refusedOverLimit + 1 } })
  | .refused => (.turnedAway, { s with counters := { c with errors := c.errors + 1 } })
  | .admitted => (.counted, { s with counters := { c with total := c.total + 1 } })
  | .counted => (.connecting, { s with counters := { c with active := c.active + 1 } })
  | .connecting =>
      match connect with
      | .connected => (.relaying, s)
      | .failed => (.connectFailed, s)
      | .timedOut => (.connectFailed, s)
  | .connectFailed => (.closing true, { s with counters := { c with errors := c.errors + 1 } })
  | .relaying =>
      match relay with
      | .copied c2u u2c => (.copied c2u u2c, s)
      | .failed => (.relayFailed, s)
      -- an idle timeout ends the relay and is no error
      | .idle => (.closing false, s)
  | .copied c2u u2c => (.copiedIn u2c, { s with counters := { c with bytesIn := c.bytesIn + c2u } })
  | .copiedIn u2c => (.closing false, { s with counters := { c with bytesOut := c.bytesOut + u2c } })
  | .relayFailed => (.closing true, { s with counters := { c with errors := c.errors + 1 } })
  | .closing failed => (.releasing failed, { s with counters := { c with active := fetchSub c.active } })
  | .releasing failed => (.closed failed, { s with permits := s.permits + 1 })
  | .closed failed => (.closed failed, s)
  | .turnedAway => (.turnedAway, s)

/-- One proxy: what its tasks share, and the tasks in the order in which they were spawned. -/
structure Server where
  common : Common
  tasks : List Phase
  deriving DecidableEq, Repr

inductive Event
  /-- `serve_until` accepts a connection and spawns its task. -/
  | accept
  /-- Task `i` takes its next step. -/
  | advance (i : Nat) (connect : ConnectOutcome) (relay : RelayOutcome)
  deriving DecidableEq, Repr

def Server.step (w : Server) : Event → Server
  | .accept => { w with tasks := w.tasks ++ [.spawned] }
  | .advance i connect relay =>
      match w.tasks[i]? with
      | some p => ⟨(p.next connect relay w.common).2, w.tasks.set i (p.next connect relay w.common).1⟩
      | none => w

/-- `config.max_connections.max(1)`. -/
def permitsFor (maxConnections : UInt64) : Nat := max maxConnections.toNat 1

/-- `ProxyServer::new` and its tasks. -/
def server (maxConnections : UInt64) : Machine Server Event Unit where
  init := ⟨⟨permitsFor maxConnections, .zero⟩, []⟩
  step w e := ((), w.step e)

/-! ## §2 Gauges. -/

/-- From the grant of the permit to its drop. -/
@[simp] def Phase.holdsPermit : Phase → Bool
  | .spawned | .refusing | .refused | .turnedAway | .closed _ => false
  | _ => true

/-- Between the two updates of `active`. -/
@[simp] def Phase.isActive : Phase → Bool
  | .connecting | .connectFailed | .relaying | .copied _ _ | .copiedIn _ | .relayFailed | .closing _ => true
  | _ => false

/-- After the update of `total`. -/
@[simp] def Phase.inTotal : Phase → Bool
  | .spawned | .refusing | .refused | .turnedAway | .admitted => false
  | _ => true

/-- After the update of `refused_over_limit`. -/
@[simp] def Phase.inRefused : Phase → Bool
  | .refused | .turnedAway => true
  | _ => false

/-- After the update of `errors`. -/
@[simp] def Phase.inErrors : Phase → Bool
  | .turnedAway | .closing true | .releasing true | .closed true => true
  | _ => false

def Phase.finished : Phase → Bool
  | .closed _ | .turnedAway => true
  | _ => false

/-- The permits that tasks hold. -/
def Server.held (w : Server) : Nat := w.tasks.countP Phase.holdsPermit

/-- Every counter reads its phases, and the permits are shared out. -/
structure Balanced (capacity : Nat) (w : Server) : Prop where
  permits : w.common.permits + w.held = capacity
  active : Reads Phase.isActive w.tasks w.common.counters.active
  total : Reads Phase.inTotal w.tasks w.common.counters.total
  refused : Reads Phase.inRefused w.tasks w.common.counters.refusedOverLimit
  errors : Reads Phase.inErrors w.tasks w.common.counters.errors

section

variable {capacity : Nat} {w : Server}

theorem fetchSub_eq {n : Nat} (hpos : 0 < n) (hlt : n ≤ 2 ^ 64) : fetchSub n = n - 1 := by
  unfold fetchSub
  omega

theorem Balanced.active_le (h : Balanced capacity w) : w.common.counters.active ≤ w.held := by
  refine h.active.mono rfl ?_
  intro p _ hp
  cases p <;> first | rfl | cases hp

/-- **One step of one task.** The gauges move with the phases, whatever phase it is. -/
theorem next_balanced (p : Phase) (connect : ConnectOutcome) (relay : RelayOutcome) (s : Common)
    (hactive : p.isActive = true → 0 < s.counters.active ∧ s.counters.active ≤ 2 ^ 64) :
    ((p.next connect relay s).2.permits + (p.next connect relay s).1.holdsPermit.toNat =
        s.permits + p.holdsPermit.toNat) ∧
      ((p.next connect relay s).2.counters.active + p.isActive.toNat =
        s.counters.active + (p.next connect relay s).1.isActive.toNat) ∧
      ((p.next connect relay s).2.counters.total + p.inTotal.toNat =
        s.counters.total + (p.next connect relay s).1.inTotal.toNat) ∧
      ((p.next connect relay s).2.counters.refusedOverLimit + p.inRefused.toNat =
        s.counters.refusedOverLimit + (p.next connect relay s).1.inRefused.toNat) ∧
      ((p.next connect relay s).2.counters.errors + p.inErrors.toNat =
        s.counters.errors + (p.next connect relay s).1.inErrors.toNat) := by
  cases p with
  | spawned =>
      simp only [Phase.next]
      split
      · simp
        omega
      · simp
  | connecting => cases connect <;> simp [Phase.next]
  | relaying => cases relay <;> simp [Phase.next]
  | closing failed =>
      -- the one step that can wrap, and the one that needs the bounds
      obtain ⟨hpos, hle⟩ := hactive rfl
      have hsub := fetchSub_eq hpos hle
      cases failed
      · simp [Phase.next, hsub]
        omega
      · simp [Phase.next, hsub]
        omega
  | releasing failed => cases failed <;> simp [Phase.next]
  | closed failed => cases failed <;> simp [Phase.next]
  | _ => simp [Phase.next]

/-- A task that is counted as active keeps `active` away from zero, and the permits keep it small. -/
theorem Balanced.active_bounds (h : Balanced capacity w) (hcap : capacity ≤ 2 ^ 64) {i : Nat} {p : Phase}
    (hi : w.tasks[i]? = some p) (hp : p.isActive = true) :
    0 < w.common.counters.active ∧ w.common.counters.active ≤ 2 ^ 64 := by
  have hle := h.active_le
  have hpermits := h.permits
  exact ⟨h.active.pos hi hp, by omega⟩

theorem Balanced.step (h : Balanced capacity w) (hcap : capacity ≤ 2 ^ 64) (e : Event) :
    Balanced capacity (w.step e) := by
  cases e with
  | accept =>
      refine ⟨?_, h.active.spawn rfl, h.total.spawn rfl, h.refused.spawn rfl, h.errors.spawn rfl⟩
      have hheld : (w.tasks ++ [Phase.spawned]).countP Phase.holdsPermit = w.held := Reads.spawn rfl rfl
      have hpermits := h.permits
      simp only [Server.step, Server.held] at hheld hpermits ⊢
      omega
  | advance i connect relay =>
      simp only [Server.step]
      cases hi : w.tasks[i]? with
      | none => exact h
      | some p =>
          obtain ⟨hpermits, hactive, htotal, hrefused, herrors⟩ :=
            next_balanced p connect relay w.common (h.active_bounds hcap hi)
          refine ⟨?_, h.active.move hi hactive, h.total.move hi htotal, h.refused.move hi hrefused,
            h.errors.move hi herrors⟩
          have hheld := countP_move (f := Phase.holdsPermit) (q := (p.next connect relay w.common).1) hi
          have hbefore := h.permits
          simp only [Server.held] at hbefore ⊢
          omega

theorem balanced_after (maxConnections : UInt64) (events : List Event) :
    Balanced (permitsFor maxConnections) ((server maxConnections).after events) := by
  have hcap : permitsFor maxConnections ≤ 2 ^ 64 := by
    have := maxConnections.toNat_lt
    unfold permitsFor
    omega
  exact Machine.invariant _ ⟨by simp [server, Server.held], rfl, rfl, rfl, rfl⟩ (fun _ e h => h.step hcap e) events

/-- There is a task for every accepted connection. -/
theorem tasks_length (maxConnections : UInt64) (events : List Event) :
    ((server maxConnections).after events).tasks.length = events.count .accept := by
  induction events using List.reverseRecOn with
  | nil => rfl
  | append_singleton events e ih =>
      rw [Machine.after_snoc, List.count_append, ← ih]
      show (Server.step _ e).tasks.length = _
      cases e with
      | accept => simp [Server.step]
      | advance i connect relay =>
          simp only [Server.step]
          split <;> simp

end

/-- A handler that has finished let its connection go, or turned it away. -/
theorem finished_cases {p : Phase} (h : p.finished = true) : (∃ failed, p = .closed failed) ∨ p = .turnedAway := by
  cases p <;> simp_all [Phase.finished]

/-- **Bounded and balanced accounting.** For every number of connections and every interleaving of the
steps of their handlers:

* the permits that are held are never more than `max(1, max_connections)`, and `active` is never more
  than the permits that are held;
* a `fetch_sub` on `active` never finds it at zero;
* once all handlers have finished, `active` is zero, all permits are free, every accepted connection is
  in `total` or in `refused_over_limit`, and every refused one is in `errors`. -/
theorem connections_accounted (maxConnections : UInt64) (events : List Event) :
    let w := (server maxConnections).after events
    w.held ≤ max 1 maxConnections.toNat ∧ w.common.counters.active ≤ w.held ∧
      (∀ (i : Nat) (failed : Bool), w.tasks[i]? = some (Phase.closing failed) → 0 < w.common.counters.active) ∧
      ((∀ p ∈ w.tasks, p.finished = true) →
        w.common.counters.active = 0 ∧ w.common.permits = max 1 maxConnections.toNat ∧
          w.common.counters.total + w.common.counters.refusedOverLimit = events.count .accept ∧
          w.common.counters.refusedOverLimit ≤ w.common.counters.errors) := by
  intro w
  have h : Balanced (permitsFor maxConnections) w := balanced_after maxConnections events
  have hcap : permitsFor maxConnections = max 1 maxConnections.toNat := Nat.max_comm _ _
  have hpermits := h.permits
  rw [hcap] at hpermits
  refine ⟨by omega, h.active_le, fun i failed hi => h.active.pos hi rfl, ?_⟩
  intro hdone
  have hheld : w.held = 0 := by
    refine Reads.none (f := Phase.holdsPermit) rfl fun p hp => ?_
    rcases finished_cases (hdone p hp) with ⟨_, rfl⟩ | rfl <;> rfl
  have hactive : w.common.counters.active = 0 := by
    have := h.active_le
    omega
  have hshared : w.common.counters.total + w.common.counters.refusedOverLimit = w.tasks.length := by
    refine h.total.complement h.refused fun p hp => ?_
    rcases finished_cases (hdone p hp) with ⟨_, rfl⟩ | rfl <;> rfl
  refine ⟨hactive, by omega, hshared.trans (tasks_length maxConnections events), ?_⟩
  refine h.refused.mono h.errors fun p hp hrefused => ?_
  rcases finished_cases (hdone p hp) with ⟨_, rfl⟩ | rfl
  · cases hrefused
  · rfl

end Edgewarden.Proxy
