/-
# Edgewarden.Storm.Client — `storm/src/main.rs`: the clients of a connection storm and what is booked for them.

`main` spawns a task for every client and waits for all of them. A task connects, runs its rounds one after
the other and returns a latency for each; the number of latencies is `total_requests`. The counter `errors` is
shared, and between any two atomic steps of a task every other task may take any number of its own.

* §1 is what the network answers, §2 the client task, one phase for each atomic step, §3 the report.
* §4 looks at the two counters from their end: what a task will still book and what it will still add are
  read off its phase, and no step changes the sums.
* `storm_counts_iff`: `timeout(.., read_exact(..)).await.is_err()` asks for the timeout only. A read that ends
  in an error before it is booked as a request. `refused_round_booked` is a connection that was closed.

The latencies themselves and the figures that the report computes from them are floating point and are not
modelled.
-/
import Edgewarden.Lib.Gauge
import Edgewarden.Lib.Machine

namespace Edgewarden.Storm

open Edgewarden.Calls Edgewarden.Gauge

/-! ## §1 The network. -/

/-- `std::io::Error`. The clients do not look at it. -/
inductive IoError
  /-- What `read_exact` returns at the end of the stream. -/
  | unexpectedEof
  | other
  deriving DecidableEq, Repr

/-- `tokio::time::error::Elapsed`. -/
inductive Elapsed
  | elapsed
  deriving DecidableEq, Repr

/-- `Result::is_err`. -/
def isErr {ε α : Type} : Except ε α → Bool
  | .error _ => true
  | .ok _ => false

/-- One round of a client: its `write_all`, its `timeout(10 s, read_exact)`, and its `t0.elapsed()`. -/
structure Round where
  write : Except IoError Unit
  read : Except Elapsed (Except IoError Unit)
  nanos : Nat

/-- What becomes of one client. -/
structure Outcomes where
  connect : Except IoError Unit
  round : Nat → Round

/-! ## §2 Clients. -/

/-- Where a client task stands: what it does next. -/
inductive Phase
  /-- `TcpStream::connect`. -/
  | connecting (o : Outcomes)
  /-- `errors.fetch_add(rounds)`. -/
  | connectFailed
  /-- The head of the loop, with these rounds left, and the `write_all` of the next. -/
  | looping (left : List Round)
  /-- Waits for the response of a round. -/
  | reading (x : Round) (left : List Round)
  /-- `errors.fetch_add(1)`, then `break`. -/
  | roundFailed
  | returned

/-- A task and its latencies. -/
structure Client where
  phase : Phase
  mine : List Nat

/-- `AtomicU64::fetch_add`. -/
def fetchAdd (errors n : Nat) : Nat := (errors + n) % 2 ^ 64

/-- The next atomic step of a client task. -/
def Client.next (rounds : Nat) (c : Client) (errors : Nat) : Client × Nat :=
  match c.phase with
  | .connecting o =>
      match o.connect with
      | .ok _ => (⟨.looping ((List.range rounds).map o.round), c.mine⟩, errors)
      | .error _ => (⟨.connectFailed, c.mine⟩, errors)
  | .connectFailed => (⟨.returned, c.mine⟩, fetchAdd errors rounds)
  | .looping [] => (⟨.returned, c.mine⟩, errors)
  | .looping (x :: left) =>
      if isErr x.write then (⟨.roundFailed, c.mine⟩, errors) else (⟨.reading x left, c.mine⟩, errors)
  | .reading x left =>
      -- the outer result only: `Ok(Err(_))` is not an error here
      if isErr x.read then (⟨.roundFailed, c.mine⟩, errors)
      else (⟨.looping left, c.mine ++ [x.nanos]⟩, errors)
  | .roundFailed => (⟨.returned, c.mine⟩, fetchAdd errors 1)
  | .returned => (c, errors)

/-- The shared counter and the tasks, in the order in which they were spawned. -/
structure Herd where
  errors : Nat
  clients : List Client

/-- Client `i` takes its next step. -/
def Herd.step (rounds : Nat) (w : Herd) (i : Nat) : Herd :=
  match w.clients[i]? with
  | some c => ⟨(c.next rounds w.errors).2, w.clients.set i (c.next rounds w.errors).1⟩
  | none => w

/-- The part of `Args` that the clients read; `usize` is `u64`. -/
structure Args where
  clients : UInt64
  rounds : UInt64
  payloadBytes : UInt64

/-- The tasks of a storm. One that is not spawned yet is one that has not moved yet. -/
def storm (args : Args) (net : Nat → Outcomes) : Machine Herd Nat Unit where
  init := ⟨0, (List.range args.clients.toNat).map fun i => ⟨.connecting (net i), []⟩⟩
  step w i := ((), w.step args.rounds.toNat i)

/-! ## §3 The report. -/

/-- The counts of `Results`. -/
structure Results where
  clients : UInt64
  rounds : UInt64
  payloadBytes : UInt64
  totalRequests : UInt64
  errors : UInt64
  deriving DecidableEq, Repr

/-- Room for `n` values of a size: `Vec::with_capacity` panics beyond `isize::MAX` bytes. -/
def withCapacity (size n : Nat) : Option Unit := if size * n ≤ 2 ^ 63 - 1 then some () else none

def Client.hasReturned (c : Client) : Bool :=
  match c.phase with
  | .returned => true
  | _ => false

/-- `main`, as far as its counts go; `none` if it panics, or still waits for a client. -/
def report (args : Args) (w : Herd) : Option Results := do
  withCapacity 1 args.payloadBytes.toNat
  -- `latencies` is a vector of `u128`s; a product beyond `usize` panics as well
  withCapacity 16 (args.clients.toNat * args.rounds.toNat)
  withCapacity 8 args.clients.toNat
  if w.clients.all Client.hasReturned then
    let latencies := w.clients.flatMap Client.mine
    return {
      clients := args.clients
      rounds := args.rounds
      payloadBytes := args.payloadBytes
      totalRequests := UInt64.ofNat latencies.length
      errors := UInt64.ofNat w.errors }
  else
    none

/-! ## §4 Counting from the end. -/

/-- The payload is written and the response is read within the timeout. -/
def Round.completed (x : Round) : Bool :=
  match x.write, x.read with
  | .ok _, .ok (.ok _) => true
  | _, _ => false

/-- The payload is written and the read ends in an error before the timeout. -/
def Round.swallowed (x : Round) : Bool :=
  match x.write, x.read with
  | .ok _, .ok (.error _) => true
  | _, _ => false

/-- The round ends the loop. -/
def Round.breaks (x : Round) : Bool := isErr x.write || isErr x.read

/-- The rounds a client attempts: up to the first that ends its loop. -/
def attemptedRounds : List Round → List Round
  | [] => []
  | x :: left => x :: if x.breaks then [] else attemptedRounds left

/-- The same for a client that may not connect. -/
def Outcomes.attempted (o : Outcomes) (rounds : Nat) : List Round :=
  match o.connect with
  | .ok _ => attemptedRounds ((List.range rounds).map o.round)
  | .error _ => []

/-- The errors for a client: one for each round in `f`, or for all rounds if it does not connect. -/
def Outcomes.errors (f : Round → Bool) (o : Outcomes) (rounds : Nat) : Nat :=
  match o.connect with
  | .ok _ => (o.attempted rounds).countP f
  | .error _ => rounds

/-- How many latencies a task will return in the end. -/
def Client.books (rounds : Nat) (c : Client) : Nat :=
  c.mine.length +
    match c.phase with
    | .connecting o => (o.attempted rounds).countP (!Round.breaks ·)
    | .looping left => (attemptedRounds left).countP (!Round.breaks ·)
    | .reading x left => if isErr x.read then 0 else (attemptedRounds left).countP (!Round.breaks ·) + 1
    | _ => 0

/-- How much a task will still add to `errors`. -/
def Client.adds (rounds : Nat) (c : Client) : Nat :=
  match c.phase with
  | .connecting o => o.errors Round.breaks rounds
  | .connectFailed => rounds
  | .looping left => (attemptedRounds left).countP Round.breaks
  | .reading x left => if isErr x.read then 1 else (attemptedRounds left).countP Round.breaks
  | .roundFailed => 1
  | .returned => 0

section Counts

variable {rounds : Nat} {c : Client} {errors : Nat}

/-- **One step books nothing that was not to be booked.** -/
theorem next_books : (c.next rounds errors).1.books rounds = c.books rounds := by
  obtain ⟨phase, mine⟩ := c
  cases phase with
  | connecting o =>
      cases hconnect : o.connect <;> simp [Client.next, Client.books, Outcomes.attempted, hconnect]
  | looping left =>
      cases left with
      | nil => simp [Client.next, Client.books, attemptedRounds]
      | cons x left =>
          cases hwrite : isErr x.write <;> cases hread : isErr x.read <;>
            simp [Client.next, Client.books, attemptedRounds, Round.breaks, hwrite, hread]
  | reading x left =>
      cases hread : isErr x.read
      · simp [Client.next, Client.books, hread]
        omega
      · simp [Client.next, Client.books, hread]
  | _ => simp [Client.next, Client.books]

/-- **One step pays what it owes less**, as long as the counter does not wrap. -/
theorem next_adds (hfits : errors + c.adds rounds < 2 ^ 64) :
    (c.next rounds errors).2 + (c.next rounds errors).1.adds rounds = errors + c.adds rounds := by
  obtain ⟨phase, mine⟩ := c
  cases phase with
  | connecting o =>
      cases hconnect : o.connect <;>
        simp [Client.next, Client.adds, Outcomes.errors, Outcomes.attempted, hconnect]
  | looping left =>
      cases left with
      | nil => simp [Client.next, Client.adds, attemptedRounds]
      | cons x left =>
          cases hwrite : isErr x.write <;> cases hread : isErr x.read <;>
            simp [Client.next, Client.adds, attemptedRounds, Round.breaks, hwrite, hread]
  | reading x left =>
      cases hread : isErr x.read <;> simp [Client.next, Client.adds, hread]
  | connectFailed => simpa [Client.next, Client.adds, fetchAdd] using hfits
  | roundFailed => simpa [Client.next, Client.adds, fetchAdd] using hfits
  | returned => rfl

end Counts

/-! ## §5 Runs. -/

/-- A sum over all clients. -/
def overClients (args : Args) (f : Nat → Nat) : Nat := ((List.range args.clients.toNat).map f).sum

/-- What is booked and added in the end is settled from the beginning. -/
structure Settled (args : Args) (net : Nat → Outcomes) (w : Herd) : Prop where
  latencies : Owes (Client.books args.rounds.toNat) w.clients 0
    (overClients args fun i => ((net i).attempted args.rounds.toNat).countP (!Round.breaks ·))
  errors : Owes (Client.adds args.rounds.toNat) w.clients w.errors
    (overClients args fun i => (net i).errors Round.breaks args.rounds.toNat)

section Runs

variable {args : Args} {net : Nat → Outcomes} {w : Herd}

theorem Settled.step (h : Settled args net w)
    (hfits : (overClients args fun i => (net i).errors Round.breaks args.rounds.toNat) < 2 ^ 64) (i : Nat) :
    Settled args net (w.step args.rounds.toNat i) := by
  unfold Herd.step
  cases hi : w.clients[i]? with
  | none => exact h
  | some c =>
      have hle := h.errors.le hi
      refine ⟨h.latencies.move hi ?_, h.errors.move hi (next_adds (by omega))⟩
      rw [next_books]

theorem settled_after (hfits : (overClients args fun i => (net i).errors Round.breaks args.rounds.toNat) < 2 ^ 64)
    (events : List Nat) : Settled args net ((storm args net).after events) := by
  refine Machine.invariant _ ⟨?_, ?_⟩ (fun _ i h => h.step hfits i) events
  · simp [Owes, storm, overClients, Client.books, Function.comp_def]
  · simp [Owes, storm, overClients, Client.adds, Function.comp_def]

theorem phase_of_hasReturned {c : Client} (h : c.hasReturned = true) : c.phase = .returned := by
  unfold Client.hasReturned at h
  split at h
  · assumption
  · cases h

/-- Clients that have returned have booked what there was to book ... -/
theorem Settled.latencies_length (h : Settled args net w) (hreturned : ∀ c ∈ w.clients, c.hasReturned = true) :
    (w.clients.flatMap Client.mine).length =
      overClients args fun i => ((net i).attempted args.rounds.toNat).countP (!Round.breaks ·) := by
  have hmine : w.clients.map (Client.books args.rounds.toNat) = w.clients.map fun c => c.mine.length :=
    List.map_congr_left fun c hc => by simp [Client.books, phase_of_hasReturned (hreturned c hc)]
  have hlatencies := h.latencies
  rw [Owes, hmine, Nat.zero_add] at hlatencies
  rw [List.length_flatMap, hlatencies]

/-- ... and have added what there was to add. -/
theorem Settled.errors_eq (h : Settled args net w) (hreturned : ∀ c ∈ w.clients, c.hasReturned = true) :
    w.errors = overClients args fun i => (net i).errors Round.breaks args.rounds.toNat :=
  h.errors.settled fun c hc => by simp [Client.adds, phase_of_hasReturned (hreturned c hc)]

theorem withCapacity_eq_some {size n : Nat} {u : Unit} (h : withCapacity size n = some u) :
    size * n ≤ 2 ^ 63 - 1 := by
  unfold withCapacity at h
  split at h
  · assumption
  · cases h

/-- A report: the latencies had room, the clients have all returned, and these are its counts. -/
theorem report_eq_some {results : Results} (h : report args w = some results) :
    16 * (args.clients.toNat * args.rounds.toNat) ≤ 2 ^ 63 - 1 ∧ (∀ c ∈ w.clients, c.hasReturned = true) ∧
      results.totalRequests = UInt64.ofNat (w.clients.flatMap Client.mine).length ∧
      results.errors = UInt64.ofNat w.errors := by
  obtain ⟨_, _, h⟩ := Option.bind_eq_some_iff.mp h
  obtain ⟨_, hroom, h⟩ := Option.bind_eq_some_iff.mp h
  obtain ⟨_, _, h⟩ := Option.bind_eq_some_iff.mp h
  split at h
  · rename_i hall
    obtain rfl := Option.some.inj h
    exact ⟨withCapacity_eq_some hroom, List.all_eq_true.mp hall, rfl, rfl⟩
  · cases h

theorem attemptedRounds_length_le (left : List Round) : (attemptedRounds left).length ≤ left.length := by
  induction left with
  | nil => exact Nat.le_refl 0
  | cons x left ih =>
      simp only [attemptedRounds, List.length_cons]
      split
      · simp
      · omega

theorem attempted_length_le (o : Outcomes) (rounds : Nat) : (o.attempted rounds).length ≤ rounds := by
  unfold Outcomes.attempted
  cases o.connect with
  | error e => exact Nat.zero_le _
  | ok u => simpa using attemptedRounds_length_le ((List.range rounds).map o.round)

theorem errors_le (f : Round → Bool) (o : Outcomes) (rounds : Nat) : o.errors f rounds ≤ rounds := by
  unfold Outcomes.errors
  cases o.connect with
  | error e => exact Nat.le_refl _
  | ok u => exact Nat.le_trans List.countP_le_length (attempted_length_le o rounds)

theorem overClients_le {f : Nat → Nat} {b : Nat} (h : ∀ i, f i ≤ b) :
    overClients args f ≤ args.clients.toNat * b := by
  have hle := List.sum_le_card_nsmul ((List.range args.clients.toNat).map f) b (by simpa using fun i _ => h i)
  simpa [overClients] using hle

/-- **The counts of a report**, for every order of the clients' steps. -/
theorem report_counts {events : List Nat} {results : Results}
    (h : report args ((storm args net).after events) = some results) :
    results.totalRequests.toNat =
        (overClients args fun i => ((net i).attempted args.rounds.toNat).countP (!Round.breaks ·)) ∧
      results.errors.toNat = overClients args fun i => (net i).errors Round.breaks args.rounds.toNat := by
  obtain ⟨hroom, hreturned, htotal, herrors⟩ := report_eq_some h
  have herrorsLe : (overClients args fun i => (net i).errors Round.breaks args.rounds.toNat) ≤
      args.clients.toNat * args.rounds.toNat := overClients_le fun i => errors_le _ _ _
  have hbookedLe : (overClients args fun i => ((net i).attempted args.rounds.toNat).countP (!Round.breaks ·)) ≤
      args.clients.toNat * args.rounds.toNat :=
    overClients_le fun i => Nat.le_trans List.countP_le_length (attempted_length_le _ _)
  have hsettled : Settled args net ((storm args net).after events) := settled_after (by omega) events
  constructor
  · rw [htotal, hsettled.latencies_length hreturned, UInt64.toNat_ofNat', Nat.mod_eq_of_lt (by omega)]
  · rw [herrors, hsettled.errors_eq hreturned, UInt64.toNat_ofNat', Nat.mod_eq_of_lt (by omega)]

/-- A round is completed, swallowed, or ends the loop. -/
theorem Round.cases (x : Round) :
    (!x.breaks).toNat = x.completed.toNat + x.swallowed.toNat ∧
      (!x.completed).toNat = x.breaks.toNat + x.swallowed.toNat := by
  obtain ⟨_ | _, _ | _ | _, _⟩ := x <;> exact ⟨rfl, rfl⟩

theorem overClients_add (f g : Nat → Nat) :
    (overClients args fun i => f i + g i) = overClients args f + overClients args g :=
  List.sum_map_add

theorem overClients_eq_zero_iff (f : Nat → Nat) :
    overClients args f = 0 ↔ ∀ i < args.clients.toNat, f i = 0 := by
  simp [overClients, List.sum_eq_zero_iff]

end Runs

/-! ## §6 The result. -/

/-- `total_requests` is the number of completed rounds, and `errors` that of the attempted rounds that are
not, with all rounds of the clients that do not connect. -/
structure CountsCompleted (args : Args) (net : Nat → Outcomes) (results : Results) : Prop where
  total : results.totalRequests.toNat =
    overClients args fun i => ((net i).attempted args.rounds.toNat).countP Round.completed
  errors : results.errors.toNat =
    overClients args fun i => (net i).errors (!Round.completed ·) args.rounds.toNat

/-- **What a storm counts.** For every number of clients and rounds, all outcomes of connects, writes and
reads, and every order of the clients' steps that comes to a report: it counts the completed round trips, and
every other attempted round as an error, if and only if no read of an attempted round ends in an error before
its timeout. -/
theorem storm_counts_iff (args : Args) (net : Nat → Outcomes) (events : List Nat) (results : Results)
    (h : report args ((storm args net).after events) = some results) :
    CountsCompleted args net results ↔
      ∀ i < args.clients.toNat, ∀ x ∈ (net i).attempted args.rounds.toNat, x.swallowed = false := by
  obtain ⟨htotal, herrors⟩ := report_counts h
  have hbooked : ∀ i, ((net i).attempted args.rounds.toNat).countP (!Round.breaks ·) =
      ((net i).attempted args.rounds.toNat).countP Round.completed +
        ((net i).attempted args.rounds.toNat).countP Round.swallowed :=
    fun i => countP_share fun x => x.cases.1
  have hswallowed : results.totalRequests.toNat =
        (overClients args fun i => ((net i).attempted args.rounds.toNat).countP Round.completed) ↔
      ∀ i < args.clients.toNat, ∀ x ∈ (net i).attempted args.rounds.toNat, x.swallowed = false := by
    rw [htotal]
    simp only [hbooked]
    rw [overClients_add, Nat.add_eq_left, overClients_eq_zero_iff]
    simp only [List.countP_eq_zero, Bool.not_eq_true]
  constructor
  · intro hcounts
    exact hswallowed.mp hcounts.total
  · intro hcond
    refine ⟨hswallowed.mpr hcond, herrors.trans ?_⟩
    refine congrArg List.sum (List.map_congr_left fun i hi => ?_)
    have hnone : ((net i).attempted args.rounds.toNat).countP Round.swallowed = 0 := by
      simpa [List.countP_eq_zero] using hcond i (List.mem_range.mp hi)
    have hunfinished : ((net i).attempted args.rounds.toNat).countP (!Round.completed ·) =
        ((net i).attempted args.rounds.toNat).countP Round.breaks := by
      rw [countP_share fun x => x.cases.2, hnone, Nat.add_zero]
    unfold Outcomes.errors
    cases (net i).connect with
    | error e => rfl
    | ok u => exact hunfinished.symm

/-- Three rounds: the first is answered, the second runs into the timeout. -/
def slowClient : Outcomes where
  connect := .ok ()
  round
    | 0 => ⟨.ok (), .ok (.ok ()), 1000000⟩
    | _ => ⟨.ok (), .error .elapsed, 10000000000⟩

/-- Another client cannot connect. -/
def slowNet : Nat → Outcomes
  | 0 => slowClient
  | _ => ⟨.error .other, slowClient.round⟩

/-- Two clients with three rounds each, one after the other. -/
def twoClients : Args := ⟨2, 3, 256⟩

theorem storm_counts_slow :
    report twoClients ((storm twoClients slowNet).after [0, 1, 0, 1, 0, 0, 0, 0]) = some ⟨2, 3, 256, 1, 4⟩ ∧
      CountsCompleted twoClients slowNet ⟨2, 3, 256, 1, 4⟩ := by
  have hreport : report twoClients ((storm twoClients slowNet).after [0, 1, 0, 1, 0, 0, 0, 0]) =
      some ⟨2, 3, 256, 1, 4⟩ := by decide +kernel
  refine ⟨hreport, (storm_counts_iff twoClients slowNet _ _ hreport).mpr ?_⟩
  decide +kernel

/-- The proxy is at its limit: it accepts the connection and closes it. -/
def refusedNet : Nat → Outcomes
  | _ => ⟨.ok (), fun _ => ⟨.ok (), .ok (.error .unexpectedEof), 1000⟩⟩

/-- One client, one round, no response: one request and no error. -/
theorem refused_round_booked :
    report ⟨1, 1, 256⟩ ((storm ⟨1, 1, 256⟩ refusedNet).after [0, 0, 0, 0]) = some ⟨1, 1, 256, 1, 0⟩ ∧
      (overClients ⟨1, 1, 256⟩ fun i => ((refusedNet i).attempted 1).countP Round.completed) = 0 ∧
      ¬ CountsCompleted ⟨1, 1, 256⟩ refusedNet ⟨1, 1, 256, 1, 0⟩ := by
  refine ⟨by decide +kernel, by decide +kernel, ?_⟩
  intro h
  have htotal := h.total
  revert htotal
  decide +kernel

end Edgewarden.Storm
