/-
# Edgewarden.Agent.Reconnect — the loop of `EdgeAgent::run_watch`, and how long it waits before it reconnects.

One iteration connects, opens the stream, handles its commands until it closes, and sleeps for
`backoff.next_delay()`. The backoff is reset when `connect` succeeds, before the stream has said anything.

* §1 is the loop; the handling of a command is in `Agent.Watch`, the backoff in `Protocol.Backoff`.
* §2 reads the counter of the backoff off the iterations: the sleeps since the last connect.
* `watch_backs_off_iff`: "the edge must reconnect with jittered exponential backoff" (`fleet.proto`). The
  counter is the number of iterations without a command only if no iteration connects for nothing;
  `accepting_server_redialled`: a server that accepts connections and fails every stream is dialled again
  within 200 ms, for ever.
-/
import Edgewarden.Agent.Watch
import Edgewarden.Protocol.Backoff
import Mathlib.Data.List.Chain

namespace Edgewarden.Agent

open Edgewarden.Calls Edgewarden.FaultIo Edgewarden.Protocol Edgewarden.Registry Edgewarden.State

/-! ## §1 The loop. -/

/-- How an iteration ends up at its sleep. -/
inductive WatchOutcome
  /-- `self.connect()` fails. -/
  | connectFailed (e : AgentError)
  /-- `client.watch(outbound)` fails. -/
  | watchFailed (status : Status)
  /-- The stream delivers these commands, then closes or breaks. `failures` are those of the state file. -/
  | streamClosed (commands : List CloudCommand) (failures : List (Option StoreTear))

/-- One iteration: its outcome, what it measures, and the draw of its sleep. -/
structure Iteration where
  outcome : WatchOutcome
  usage : ResourceUsage
  genRange : Backoff.GenRange

/-- The agent inside `run_watch`. -/
structure Watching where
  store : StateStore
  disk : StoreDisk
  backoff : Backoff

/-- The store and its files after the commands of a stream. -/
def handleCommands (s : StateStore) (disk : StoreDisk) (commands : List CloudCommand)
    (failures : List (Option StoreTear)) : StateStore × StoreDisk :=
  let r := ((commands.forM handleCommand).run.run s).survive storeDevice failures disk
  (r.1.2, r.2)

/-- The body of the loop up to its sleep: the report that was sent, if any, and the agent. -/
def Watching.attempt (cfg : AgentConfig) (w : Watching) (it : Iteration) : Option EdgeReport × Watching :=
  match it.outcome with
  | .connectFailed _ => (none, w)
  | .watchFailed _ => (some (edgeReport cfg w.store it.usage), { w with backoff := w.backoff.reset })
  | .streamClosed commands failures =>
      let (store, disk) := handleCommands w.store w.disk commands failures
      (some (edgeReport cfg w.store it.usage), ⟨store, disk, w.backoff.reset⟩)

/-- What an iteration does that can be seen. -/
structure Turn where
  report : Option EdgeReport
  sleep : Duration

/-- One iteration. -/
def Watching.iterate (cfg : AgentConfig) (w : Watching) (it : Iteration) : Turn × Watching :=
  let (report, w) := w.attempt cfg it
  let (sleep, backoff) := w.backoff.nextDelay it.genRange
  (⟨report, sleep⟩, { w with backoff := backoff })

/-- `Backoff::new(Duration::from_millis(200), Duration::from_secs(30))`. -/
def watchBackoff : Backoff := .new (.fromMillis 200) (.fromSecs 30)

/-- `run_watch` of an agent with this store. -/
def runWatch (cfg : AgentConfig) (s : StateStore) (disk : StoreDisk) : Machine Watching Iteration Turn where
  init := ⟨s, disk, watchBackoff⟩
  step := Watching.iterate cfg

/-! ## §2 The counter. -/

/-- `connect` succeeds. -/
def Iteration.connects (it : Iteration) : Bool :=
  match it.outcome with
  | .connectFailed _ => false
  | _ => true

/-- The stream delivers a command. -/
def Iteration.receives (it : Iteration) : Bool :=
  match it.outcome with
  | .streamClosed commands _ => !commands.isEmpty
  | _ => false

/-- How many iterations in a row have received no command by now. -/
def idle (its : List Iteration) : Nat := its.foldl (fun k it => if it.receives then 0 else k + 1) 0

/-- How many sleeps there were since the last connect. -/
def sleeps (its : List Iteration) : Nat := its.foldl (fun k it => if it.connects then 1 else k + 1) 0

section Counter

variable {cfg : AgentConfig} {s : StateStore} {disk : StoreDisk} {its : List Iteration} {it : Iteration}

@[simp] theorem idle_snoc : idle (its ++ [it]) = if it.receives then 0 else idle its + 1 := by
  simp [idle]

theorem idle_snoc_eq_zero : idle (its ++ [it]) = 0 ↔ it.receives = true := by
  rw [idle_snoc]
  cases it.receives <;> simp

@[simp] theorem sleeps_snoc : sleeps (its ++ [it]) = if it.connects then 1 else sleeps its + 1 := by
  simp [sleeps]

theorem sleeps_pos (h : its ≠ []) : 0 < sleeps its := by
  obtain ⟨before, a, rfl⟩ := (its.eq_nil_or_concat').resolve_left h
  rw [sleeps_snoc]
  split <;> omega

/-- What an iteration calls before its sleep. -/
def Iteration.resets (it : Iteration) : List Protocol.Call := if it.connects then [.reset] else []

/-- All that an iteration calls. -/
def Iteration.calls (it : Iteration) : List Protocol.Call := it.resets ++ [.nextDelay it.genRange]

/-- The backoff of the loop is driven by these calls, and by nothing else. -/
theorem attempt_backoff (w : Watching) :
    (w.attempt cfg it).2.backoff = it.resets.foldl (fun b c => (Protocol.Call.step b c).2) w.backoff := by
  unfold Watching.attempt Iteration.resets Iteration.connects
  cases it.outcome <;> rfl

theorem after_backoff (its : List Iteration) :
    ((runWatch cfg s disk).after its).backoff =
      (backoffMachine (.fromMillis 200) (.fromSecs 30)).after (its.flatMap Iteration.calls) := by
  induction its using List.reverseRecOn with
  | nil => rfl
  | append_singleton its it ih =>
      rw [Machine.after_snoc, List.flatMap_append, List.flatMap_singleton]
      show ((((runWatch cfg s disk).after its).attempt cfg it).2.backoff.nextDelay it.genRange).2 = _
      rw [attempt_backoff, ih]
      simp [Machine.after, Iteration.calls, backoffMachine, Protocol.Call.step]

/-- The backoff that the sleep of `it`, after the iterations `its`, draws from. -/
def sleepBackoff (cfg : AgentConfig) (s : StateStore) (disk : StoreDisk) (its : List Iteration)
    (it : Iteration) : Backoff :=
  (((runWatch cfg s disk).after its).attempt cfg it).2.backoff

theorem sleepBackoff_eq (its : List Iteration) (it : Iteration) :
    sleepBackoff cfg s disk its it =
      (backoffMachine (.fromMillis 200) (.fromSecs 30)).after (its.flatMap Iteration.calls ++ it.resets) := by
  rw [sleepBackoff, attempt_backoff, after_backoff]
  simp [Machine.after, backoffMachine]

theorem sinceReset_calls (its : List Iteration) : sinceReset (its.flatMap Iteration.calls) = sleeps its := by
  induction its using List.reverseRecOn with
  | nil => rfl
  | append_singleton its it ih =>
      rw [sleeps_snoc, ← ih]
      cases hc : it.connects <;> simp [sinceReset, Iteration.calls, Iteration.resets, hc]

theorem sinceReset_resets (its : List Iteration) (it : Iteration) :
    sinceReset (its.flatMap Iteration.calls ++ it.resets) = sleeps (its ++ [it]) - 1 := by
  rw [sleeps_snoc, ← sinceReset_calls]
  cases hc : it.connects <;> simp [sinceReset, Iteration.resets, hc]

/-- **The counter at a sleep**, of a base and a cap that do not change. -/
theorem sleepBackoff_counter (cfg : AgentConfig) (s : StateStore) (disk : StoreDisk) (its : List Iteration)
    (it : Iteration) :
    (sleepBackoff cfg s disk its it).base = .fromMillis 200 ∧ (sleepBackoff cfg s disk its it).cap = .fromSecs 30 ∧
      (sleepBackoff cfg s disk its it).attempts.toNat = min (sleeps (its ++ [it]) - 1) (2 ^ 32 - 1) := by
  rw [sleepBackoff_eq, ← sinceReset_resets]
  exact after_calls _ _ _

end Counter

/-! ## §3 Backing off. -/

/-- A sleep after `k` iterations without a command: the counter is `k - 1`, and the longest draw doubles with
each of them up to the cap. -/
structure BacksOffAt (b : Backoff) (k : Nat) : Prop where
  counter : b.attempts.toNat = k - 1
  upper : ∀ genRange, (b.nextDelay genRange).1.asMillis ≤ min 30000 (200 * 2 ^ (k - 1))
  reached : ∃ genRange, (b.nextDelay genRange).1.asMillis = min 30000 (200 * 2 ^ (k - 1))

/-- Every sleep of the run that follows an iteration without a command backs off. -/
def BacksOff (cfg : AgentConfig) (s : StateStore) (disk : StoreDisk) (its : List Iteration) : Prop :=
  ∀ before it after, its = before ++ it :: after → idle (before ++ [it]) ≠ 0 →
    BacksOffAt (sleepBackoff cfg s disk before it) (idle (before ++ [it]))

section Delays

variable {b : Backoff}

/-- The longest delay of the loop's base and cap: they are within the clamp of the exponent. -/
theorem envelope_watch (n : Nat) :
    envelope (.fromMillis 200) (.fromSecs 30) n = min 30000 (200 * 2 ^ n) := by
  have hbase : (Duration.fromMillis 200).asMillis = 200 := by decide +kernel
  have hcap : (Duration.fromSecs 30).asMillis = 30000 := by decide +kernel
  rw [envelope, hbase, hcap]
  rcases Nat.lt_or_ge 10 n with hlarge | hsmall
  · have hpow : 2 ^ 10 ≤ 2 ^ n := Nat.pow_le_pow_right (by omega) (by omega)
    rw [Nat.min_eq_right (by omega : 10 ≤ n)]
    omega
  · rw [Nat.min_eq_left hsmall, Nat.min_comm]

/-- All of the property is in the counter. -/
theorem backsOffAt_iff (hbase : b.base = .fromMillis 200) (hcap : b.cap = .fromSecs 30) (k : Nat) :
    BacksOffAt b k ↔ b.attempts.toNat = k - 1 := by
  refine ⟨BacksOffAt.counter, fun hcounter => ?_⟩
  have hfits : b.cap.asMillis ≤ 2 ^ 64 - 1 := by
    rw [hcap]
    decide +kernel
  have hdelay : ∀ genRange, (b.nextDelay genRange).1.asMillis = _ := nextDelay_asMillis hfits
  have henvelope : envelope b.base b.cap b.attempt.toNat = min 30000 (200 * 2 ^ (k - 1)) := by
    rw [hbase, hcap, envelope_watch, ← hcounter]
    rfl
  rw [henvelope] at hdelay
  refine ⟨hcounter, ?_, Fin.last, ?_⟩
  · intro genRange
    rw [hdelay]
    exact Nat.min_le_right _ _
  · -- the envelope is even, so that its two halves make it up
    rw [hdelay, Fin.val_last]
    omega

end Delays

section Runs

variable {cfg : AgentConfig} {s : StateStore} {disk : StoreDisk} {its : List Iteration} {it : Iteration}

theorem backsOff_nil : BacksOff cfg s disk [] := by
  intro before it after h
  simp at h

theorem backsOff_snoc :
    BacksOff cfg s disk (its ++ [it]) ↔ BacksOff cfg s disk its ∧
      (idle (its ++ [it]) ≠ 0 → min (sleeps (its ++ [it]) - 1) (2 ^ 32 - 1) = idle (its ++ [it]) - 1) := by
  obtain ⟨hbase, hcap, hcounter⟩ := sleepBackoff_counter cfg s disk its it
  rw [← hcounter, ← backsOffAt_iff hbase hcap]
  constructor
  · intro h
    refine ⟨?_, h its it [] rfl⟩
    rintro before it' after rfl
    exact h before it' (after ++ [it]) (by simp)
  · rintro ⟨hits, hlast⟩ before it' after hsplit
    obtain rfl | ⟨after', a, rfl⟩ := after.eq_nil_or_concat'
    · obtain ⟨rfl, rfl⟩ : its = before ∧ it = it' := by simpa using hsplit
      exact hlast
    · have hsplit' : its ++ [it] = (before ++ it' :: after') ++ [a] := by
        rw [hsplit]
        simp
      obtain ⟨rfl, _⟩ := List.append_inj' hsplit' rfl
      exact hits before it' after' rfl

/-- The second of two iterations connects if and only if the first has received a command, or has received
one itself. -/
def Resumes (a it : Iteration) : Prop := it.receives = true ∨ it.connects = a.receives

theorem isChain_snoc {a : Iteration} :
    (its ++ [a] ++ [it]).IsChain Resumes ↔ (its ++ [a]).IsChain Resumes ∧ Resumes a it := by
  simp

/-- In a run of such iterations the two counts are one. -/
theorem sleeps_eq_idle (h : its.IsChain Resumes) (hidle : idle its ≠ 0) : sleeps its = idle its := by
  induction its using List.reverseRecOn with
  | nil => exact absurd rfl hidle
  | append_singleton its it ih =>
      have hnone : it.receives = false := Bool.eq_false_iff.mpr (mt idle_snoc_eq_zero.mpr hidle)
      obtain rfl | ⟨before, a, rfl⟩ := its.eq_nil_or_concat'
      · cases hc : it.connects <;> simp [sleeps, idle, hc, hnone]
      · obtain ⟨hchain, hresumes⟩ := isChain_snoc.mp h
        have hconnects : it.connects = a.receives := by simpa [Resumes, hnone] using hresumes
        cases ha : a.receives with
        | true =>
            -- the count of idle iterations and that of sleeps begin here
            rw [idle_snoc, idle_snoc, sleeps_snoc]
            simp [hnone, ha, hconnects]
        | false =>
            have hbefore : sleeps (before ++ [a]) = idle (before ++ [a]) := by
              refine ih hchain (mt idle_snoc_eq_zero.mp ?_)
              simp [ha]
            rw [idle_snoc, sleeps_snoc, hbefore]
            simp [hnone, ha, hconnects]

/-- A run that backs off and goes on to do so: one more pair, and one more bound. -/
theorem resumes_of_counter {a : Iteration} (hidle : idle (its ++ [a] ++ [it]) ≠ 0)
    (hcounter : min (sleeps (its ++ [a] ++ [it]) - 1) (2 ^ 32 - 1) = idle (its ++ [a] ++ [it]) - 1) :
    Resumes a it := by
  have hpos : 0 < sleeps (its ++ [a]) := sleeps_pos (by simp)
  have hnone : it.receives = false := Bool.eq_false_iff.mpr (mt idle_snoc_eq_zero.mpr hidle)
  refine .inr ?_
  rw [idle_snoc, sleeps_snoc, hnone] at hcounter
  simp only [Bool.false_eq_true, if_false] at hcounter
  cases ha : a.receives with
  | true =>
      have hstart : idle (its ++ [a]) = 0 := idle_snoc_eq_zero.mpr ha
      by_contra hconnects
      rw [if_neg hconnects] at hcounter
      omega
  | false =>
      have hgoes : idle (its ++ [a]) ≠ 0 := mt idle_snoc_eq_zero.mp (by simp [ha])
      by_contra hconnects
      rw [if_pos (by simpa using hconnects)] at hcounter
      omega

/-- **When watch reconnection backs off.** For every agent, every run of the loop and every mix of outcomes:
each sleep after `k` iterations without a command draws at counter `k - 1`, so that its upper bound doubles up
to the cap, if and only if every iteration but the first that receives no command connects exactly when the one
before it has received one, and no more than `2^32` in a row receive none. -/
theorem watch_backs_off_iff (cfg : AgentConfig) (s : StateStore) (disk : StoreDisk) (its : List Iteration) :
    BacksOff cfg s disk its ↔
      its.IsChain Resumes ∧ ∀ before, before <+: its → idle before ≤ 2 ^ 32 := by
  induction its using List.reverseRecOn with
  | nil => simp [backsOff_nil, idle]
  | append_singleton its it ih =>
      rw [backsOff_snoc, ih]
      constructor
      · rintro ⟨⟨hchain, hbound⟩, hlast⟩
        constructor
        · obtain rfl | ⟨before, a, rfl⟩ := its.eq_nil_or_concat'
          · simp
          · refine isChain_snoc.mpr ⟨hchain, ?_⟩
            by_cases hidle : idle (before ++ [a] ++ [it]) = 0
            · exact .inl (idle_snoc_eq_zero.mp hidle)
            · exact resumes_of_counter hidle (hlast hidle)
        · intro before hbefore
          rcases List.prefix_concat_iff.mp hbefore with rfl | hbefore
          · by_cases hidle : idle (its ++ [it]) = 0
            · omega
            · have := hlast hidle
              omega
          · exact hbound before hbefore
      · rintro ⟨hchain, hbound⟩
        refine ⟨⟨(List.isChain_append.mp hchain).1, ?_⟩, ?_⟩
        · intro before hbefore
          exact hbound before (hbefore.trans (List.prefix_append its [it]))
        · intro hidle
          have hle := hbound _ (List.prefix_refl (its ++ [it]))
          rw [sleeps_eq_idle hchain hidle]
          omega

/-- **A connect is enough.** However many iterations there were, the sleep of one that connects is no longer
than 200 ms, whether or not its stream says anything. -/
theorem accepting_server_redialled (hconnects : it.connects = true) (genRange : Backoff.GenRange) :
    ((sleepBackoff cfg s disk its it).nextDelay genRange).1.asMillis ≤ 200 := by
  obtain ⟨hbase, hcap, hcounter⟩ := sleepBackoff_counter cfg s disk its it
  have hfirst : (sleepBackoff cfg s disk its it).attempts.toNat = 1 - 1 := by
    rw [hcounter, sleeps_snoc, if_pos hconnects]
    rfl
  exact ((backsOffAt_iff hbase hcap 1).mpr hfirst).upper genRange

end Runs

/-- The control plane accepts the connection and does not serve `Watch`. -/
def unserved : Iteration := ⟨.watchFailed .unavailable, noUsage, fun _ => 0⟩

/-- The second sleep is the first again: its counter is 0 and not 1, and it is never longer than 200 ms. -/
theorem unserved_watch_redialled :
    idle [unserved, unserved] = 2 ∧
      (sleepBackoff anEdge .fresh ⟨none, none⟩ [unserved] unserved).attempts.toNat = 0 ∧
      (∀ genRange, ((sleepBackoff anEdge .fresh ⟨none, none⟩ [unserved] unserved).nextDelay
        genRange).1.asMillis ≤ 200) ∧
      ¬ BacksOff anEdge .fresh ⟨none, none⟩ [unserved, unserved] := by
  have hcounter : (sleepBackoff anEdge .fresh ⟨none, none⟩ [unserved] unserved).attempts.toNat = 0 := rfl
  refine ⟨rfl, hcounter, accepting_server_redialled rfl, ?_⟩
  intro h
  have hsecond : _ = idle [unserved, unserved] - 1 := (h [unserved] unserved [] rfl (by decide)).counter
  rw [hcounter] at hsecond
  revert hsecond
  decide

end Edgewarden.Agent
