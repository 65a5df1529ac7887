/-
# Edgewarden.Registry.Stream — the tasks behind `watch`: any number of streams on one registry.

`watch` spawns a task for every stream. The task reads a report, makes two registry calls, and puts its command
into a channel of 32, from which the client takes it. Between any two of these steps the other tasks, the other
calls of the registry and the client may take any number of their own; the client may hang up at any time.

* §1 is the task, one phase for each of its awaits, and the client's end of the stream.
* §2 `Stream.Answered`: every command belongs to one report, and to one moment of the run at which it was
  decided. It is the invariant of a stream; the moments are those of the whole run, so they order the commands
  of all streams.
* `watch_answers_in_order`: no interleaving loses, repeats or swaps an answer, and none is older than its
  report. `watch_updates_ordered`: what is pushed never goes back, and all streams are told the same.
-/
import Edgewarden.Lib.Machine
import Edgewarden.Registry.History
import Edgewarden.Registry.Watch

namespace Edgewarden.Registry

open Edgewarden.Calls Edgewarden.State

/-! ## §1 Streams. -/

/-- Where the task of a stream stands: what it awaits next. -/
inductive StreamPhase
  /-- `inbound.message()`. -/
  | reading
  /-- `registry.heartbeat(..)`. -/
  | heartbeating (rep : EdgeReport)
  /-- `registry.current_policy()`. -/
  | deciding (rep : EdgeReport)
  /-- `tx.send(Ok(cmd))`. -/
  | sending (cmd : CloudCommand)
  | ended
  deriving DecidableEq, Repr

/-- A stream with its two ends. -/
structure Stream where
  /-- All reports that the client has sent. -/
  sent : List EdgeReport
  /-- How many of them the task has read. -/
  read : Nat
  /-- The client sends no more. -/
  closed : Bool
  phase : StreamPhase
  /-- The commands between `tx` and `rx`. -/
  channel : List CloudCommand
  /-- The client still holds `rx`. -/
  receiving : Bool
  /-- All commands that the client has taken. -/
  received : List CloudCommand
  deriving DecidableEq, Repr

/-- A stream that was just opened. -/
def Stream.opened : Stream := ⟨[], 0, false, .reading, [], true, []⟩

/-- `mpsc::channel(32)`. -/
def channelCapacity : Nat := 32

/-- The next step of the task, at clock `now`. `broken`: the transport reports an error to `message()`. -/
def Stream.advance (s : Stream) (r : Inner) (now : UInt64) (broken : Bool) : Stream × Inner :=
  match s.phase with
  | .reading =>
      if broken then ({ s with phase := .ended }, r)
      else
        match s.sent[s.read]? with
        | some rep => ({ s with read := s.read + 1, phase := .heartbeating rep }, r)
        -- `Ok(None)` at the end of the stream; otherwise the task waits
        | none => (if s.closed then { s with phase := .ended } else s, r)
  | .heartbeating rep => ({ s with phase := .deciding rep }, (r.heartbeatUpdate now rep.heartbeat).2)
  | .deciding rep => ({ s with phase := .sending (rep.answer r.currentPolicy) }, r)
  | .sending cmd =>
      if s.receiving then
        -- a full channel makes `send` wait
        (if s.channel.length < channelCapacity then { s with channel := s.channel ++ [cmd], phase := .reading }
          else s, r)
      else ({ s with phase := .ended }, r)
  | .ended => (s, r)

def Stream.send (s : Stream) (rep : EdgeReport) : Stream :=
  if s.closed then s else { s with sent := s.sent ++ [rep] }

/-- The client takes the next command. -/
def Stream.receive (s : Stream) : Stream :=
  match s.channel with
  | [] => s
  | cmd :: rest => { s with channel := rest, received := s.received ++ [cmd] }

/-- The client drops its end, with all that is in the channel. -/
def Stream.hangUp (s : Stream) : Stream := { s with receiving := false, channel := [] }

structure Watches (ι : Type) where
  registry : Inner
  streams : ι → Stream

inductive StreamEvent (ι : Type)
  /-- Any other call of the registry. -/
  | operation (op : Op)
  | send (i : ι) (rep : EdgeReport)
  | close (i : ι)
  | receive (i : ι)
  | hangUp (i : ι)
  /-- The task of stream `i` takes its next step. -/
  | advance (i : ι) (now : UInt64) (broken : Bool)

section

variable {ι : Type} [DecidableEq ι]

def Watches.setStream (w : Watches ι) (i : ι) (s : Stream) : Watches ι :=
  { w with streams := Function.update w.streams i s }

def Watches.step (w : Watches ι) : StreamEvent ι → Watches ι
  | .operation op => { w with registry := (op.apply w.registry).2 }
  | .send i rep => w.setStream i ((w.streams i).send rep)
  | .close i => w.setStream i { w.streams i with closed := true }
  | .receive i => w.setStream i (w.streams i).receive
  | .hangUp i => w.setStream i (w.streams i).hangUp
  | .advance i now broken =>
      let (s, r) := (w.streams i).advance w.registry now broken
      { w with registry := r }.setStream i s

/-- The streams of a registry `r`. -/
def watches (ι : Type) [DecidableEq ι] (r : Inner) : Machine (Watches ι) (StreamEvent ι) Unit where
  init := ⟨r, fun _ => .opened⟩
  step w e := ((), w.step e)

@[simp] theorem setStream_same (w : Watches ι) (i : ι) (s : Stream) : (w.setStream i s).streams i = s := by
  simp [Watches.setStream]

theorem setStream_other (w : Watches ι) {i j : ι} (s : Stream) (h : j ≠ i) :
    (w.setStream i s).streams j = w.streams j := by
  simp [Watches.setStream, h]

end

/-! ## §2 What can happen to a stream. -/

/-- The transport of stream `i` reports an error. -/
def StreamEvent.breaks {ι : Type} [DecidableEq ι] (i : ι) : StreamEvent ι → Bool
  | .advance j _ broken => decide (j = i) && broken
  | _ => false

/-- Everything one event can do to one stream, with registry `r` before it. -/
inductive Stream.Moves (r : Inner) (broken : Bool) (s : Stream) : Stream → Prop
  /-- An event of another party, or a step that has to wait. -/
  | same : Moves r broken s s
  | sent (rep : EdgeReport) : s.closed = false → Moves r broken s { s with sent := s.sent ++ [rep] }
  | closed : Moves r broken s { s with closed := true }
  | received (cmd : CloudCommand) (rest : List CloudCommand) : s.channel = cmd :: rest →
      Moves r broken s { s with channel := rest, received := s.received ++ [cmd] }
  | hungUp : Moves r broken s s.hangUp
  | broke : s.phase = .reading → broken = true → Moves r broken s { s with phase := .ended }
  | read (rep : EdgeReport) : s.phase = .reading → s.sent[s.read]? = some rep →
      Moves r broken s { s with read := s.read + 1, phase := .heartbeating rep }
  | finished : s.phase = .reading → s.sent[s.read]? = none → s.closed = true →
      Moves r broken s { s with phase := .ended }
  | heartbeat (rep : EdgeReport) : s.phase = .heartbeating rep → Moves r broken s { s with phase := .deciding rep }
  | decided (rep : EdgeReport) : s.phase = .deciding rep →
      Moves r broken s { s with phase := .sending (rep.answer r.currentPolicy) }
  | queued (cmd : CloudCommand) : s.phase = .sending cmd → s.receiving = true →
      s.channel.length < channelCapacity →
      Moves r broken s { s with channel := s.channel ++ [cmd], phase := .reading }
  | refused (cmd : CloudCommand) : s.phase = .sending cmd → s.receiving = false →
      Moves r broken s { s with phase := .ended }

theorem Stream.advance_moves (s : Stream) (r : Inner) (now : UInt64) (broken : Bool) :
    s.Moves r broken (s.advance r now broken).1 := by
  unfold Stream.advance
  cases hphase : s.phase with
  | reading =>
      cases hbroken : broken with
      | true => exact .broke hphase rfl
      | false =>
          cases hnext : s.sent[s.read]? with
          | some rep => exact .read rep hphase hnext
          | none =>
              by_cases hclosed : s.closed = true
              · simp only [if_pos hclosed]
                exact .finished hphase hnext hclosed
              · simp only [if_neg hclosed]
                exact .same
  | heartbeating rep => exact .heartbeat rep hphase
  | deciding rep => exact .decided rep hphase
  | sending cmd =>
      by_cases hrecv : s.receiving = true
      · simp only [if_pos hrecv]
        by_cases hroom : s.channel.length < channelCapacity
        · simp only [if_pos hroom]
          exact .queued cmd hphase hrecv hroom
        · simp only [if_neg hroom]
          exact .same
      · simp only [if_neg hrecv]
        exact .refused cmd hphase (Bool.eq_false_iff.mpr hrecv)
  | ended => exact .same

/-- The task calls the registry once, as a heartbeat does. -/
theorem Stream.advance_registry (s : Stream) (r : Inner) (now : UInt64) (broken : Bool) :
    (s.advance r now broken).2 = r ∨ ∃ op : Op, (s.advance r now broken).2 = (op.apply r).2 := by
  unfold Stream.advance
  cases s.phase with
  | heartbeating rep => exact .inr ⟨.heartbeat now rep.heartbeat, rfl⟩
  | reading =>
      left
      cases broken with
      | true => rfl
      | false => cases s.sent[s.read]? <;> rfl
  | deciding rep => exact .inl rfl
  | sending cmd =>
      left
      cases s.receiving <;> rfl
  | ended => exact .inl rfl

section

variable {ι : Type} [DecidableEq ι]

theorem Watches.step_moves (w : Watches ι) (e : StreamEvent ι) (i : ι) :
    (w.streams i).Moves w.registry (e.breaks i) ((w.step e).streams i) := by
  have hother : ∀ (w' : Watches ι) (j : ι) (s : Stream), w'.streams = w.streams → i ≠ j →
      (w.streams i).Moves w.registry (e.breaks i) ((w'.setStream j s).streams i) := by
    intro w' j s hsame hne
    rw [setStream_other _ _ hne, hsame]
    exact .same
  cases e with
  | operation op => exact .same
  | send j rep =>
      by_cases h : i = j
      · subst h
        simp only [Watches.step, setStream_same, Stream.send]
        split
        · exact .same
        · rename_i hopen
          exact .sent rep (Bool.eq_false_iff.mpr hopen)
      · exact hother w j _ rfl h
  | close j =>
      by_cases h : i = j
      · subst h
        simp only [Watches.step, setStream_same]
        exact .closed
      · exact hother w j _ rfl h
  | receive j =>
      by_cases h : i = j
      · subst h
        simp only [Watches.step, setStream_same, Stream.receive]
        cases hch : (w.streams i).channel with
        | nil => exact .same
        | cons cmd rest => exact .received cmd rest hch
      · exact hother w j _ rfl h
  | hangUp j =>
      by_cases h : i = j
      · subst h
        simp only [Watches.step, setStream_same]
        exact .hungUp
      · exact hother w j _ rfl h
  | advance j now broken =>
      by_cases h : i = j
      · subst h
        have hmoves := (w.streams i).advance_moves w.registry now broken
        simpa [Watches.step, StreamEvent.breaks] using hmoves
      · exact hother _ j _ rfl h

theorem Watches.step_since (w : Watches ι) (e : StreamEvent ι) : Since w.registry (w.step e).registry := by
  cases e with
  | operation op => exact (op.ticks w.registry).since
  | advance i now broken =>
      show Since w.registry ((w.streams i).advance w.registry now broken).2
      rcases (w.streams i).advance_registry w.registry now broken with hsame | ⟨op, hop⟩
      · rw [hsame]
        exact .refl _
      · rw [hop]
        exact (op.ticks w.registry).since
  | _ => exact .refl _

theorem watches_since (r : Inner) {pre events : List (StreamEvent ι)} (h : pre <+: events) :
    Since ((watches ι r).after pre).registry ((watches ι r).after events).registry := by
  obtain ⟨more, rfl⟩ := h
  exact (watches ι r).keeps (K := fun _ => True) (I := fun w => Since ((watches ι r).after pre).registry w.registry)
    (fun w e _ hsince => hsince.trans (w.step_since e)) (fun _ _ => trivial) (.refl _)

end

/-! ## §3 Commands and reports. -/

/-- The report that the task is working on. -/
def StreamPhase.pending : StreamPhase → List EdgeReport
  | .heartbeating rep => [rep]
  | .deciding rep => [rep]
  | _ => []

/-- The command that is decided and not yet in the channel. -/
def StreamPhase.unsent : StreamPhase → List CloudCommand
  | .sending cmd => [cmd]
  | _ => []

/-- The commands that are on their way to the client, or there. -/
def Stream.commands (s : Stream) : List CloudCommand := s.received ++ s.channel

section

variable {ι : Type} [DecidableEq ι]

/-- What the task answers to a report when it reads the policy after the events `x.2`. -/
def decision (r : Inner) (x : EdgeReport × List (StreamEvent ι)) : CloudCommand :=
  x.1.answer ((watches ι r).after x.2).registry.currentPolicy

/-- Stream `s`, which is stream `i` after `events`, has answered these reports at these moments. -/
structure Stream.Answered (r : Inner) (i : ι) (events : List (StreamEvent ι)) (s : Stream)
    (answered : List (EdgeReport × List (StreamEvent ι))) : Prop where
  /-- The reports, in the order in which they were sent. -/
  reports : answered.map Prod.fst ++ s.phase.pending = s.sent.take s.read
  read : s.read ≤ s.sent.length
  /-- A client that hangs up loses the commands at the end ... -/
  commands : s.commands <+: answered.map (decision r)
  /-- ... and one that does not loses none. -/
  complete : s.receiving = true → s.commands ++ s.phase.unsent = answered.map (decision r)
  /-- The moments follow each other, and are of this run. -/
  moments : (answered.map Prod.snd ++ [events]).Pairwise (· <+: ·)
  /-- A report is answered after it was sent. -/
  timely : ∀ (k : Nat) (x : EdgeReport × List (StreamEvent ι)), answered[k]? = some x →
    (((watches ι r).after x.2).streams i).sent[k]? = some x.1
  capacity : s.channel.length ≤ channelCapacity

omit [DecidableEq ι] in
/-- The run goes on. -/
theorem moments_later {moments : List (List (StreamEvent ι))} {events : List (StreamEvent ι)}
    (h : (moments ++ [events]).Pairwise (· <+: ·)) (e : StreamEvent ι) :
    (moments ++ [events ++ [e]]).Pairwise (· <+: ·) := by
  rw [List.pairwise_append] at h ⊢
  refine ⟨h.1, List.pairwise_singleton _ _, ?_⟩
  intro pre hpre last hlast
  rw [List.mem_singleton.mp hlast]
  exact (h.2.2 pre hpre events List.mem_cons_self).trans (List.prefix_append _ _)

variable {r : Inner} {i : ι} {events : List (StreamEvent ι)}
  {answered : List (EdgeReport × List (StreamEvent ι))}

/-- An event that adds no answer. -/
theorem Stream.Answered.keep {s s' : Stream} (h : s.Answered r i events answered) (e : StreamEvent ι)
    (hreports : s'.phase.pending = s.phase.pending ∧ s'.sent.take s'.read = s.sent.take s.read)
    (hread : s'.read ≤ s'.sent.length) (hcommands : s'.commands <+: answered.map (decision r))
    (hcomplete : s'.receiving = true →
      s.receiving = true ∧ s'.commands ++ s'.phase.unsent = s.commands ++ s.phase.unsent)
    (hcapacity : s'.channel.length ≤ channelCapacity) : s'.Answered r i (events ++ [e]) answered where
  reports := by rw [hreports.1, hreports.2, h.reports]
  read := hread
  commands := hcommands
  complete hrecv := by rw [(hcomplete hrecv).2, h.complete (hcomplete hrecv).1]
  moments := moments_later h.moments e
  timely := h.timely
  capacity := hcapacity

/-- An event that moves the task along, and nothing else. -/
theorem Stream.Answered.phase {s : Stream} {p : StreamPhase} (h : s.Answered r i events answered)
    (e : StreamEvent ι) (hpending : p.pending = s.phase.pending)
    (hunsent : s.receiving = true → p.unsent = s.phase.unsent) :
    { s with phase := p }.Answered r i (events ++ [e]) answered := by
  refine h.keep e ⟨hpending, rfl⟩ h.read h.commands ?_ h.capacity
  intro hrecv
  refine ⟨hrecv, ?_⟩
  show s.commands ++ p.unsent = _
  rw [hunsent hrecv]

/-- The one event that adds an answer: the task reads the policy, and this is the moment. -/
theorem Stream.Answered.decide {rep : EdgeReport}
    (h : (((watches ι r).after events).streams i).Answered r i events answered) (e : StreamEvent ι)
    (hphase : (((watches ι r).after events).streams i).phase = .deciding rep) :
    Stream.Answered r i (events ++ [e])
      { ((watches ι r).after events).streams i with
        phase := .sending (rep.answer ((watches ι r).after events).registry.currentPolicy) }
      (answered ++ [(rep, events)]) := by
  have hreports := h.reports
  have hcomplete := h.complete
  rw [hphase] at hreports hcomplete
  simp only [StreamPhase.pending, StreamPhase.unsent, List.append_nil] at hreports hcomplete
  refine ⟨?_, h.read, ?_, ?_, ?_, ?_, h.capacity⟩
  · simpa [StreamPhase.pending] using hreports
  · rw [List.map_append]
    exact h.commands.trans (List.prefix_append _ _)
  · intro hrecv
    rw [List.map_append, ← hcomplete hrecv]
    rfl
  · rw [List.map_append, List.map_singleton, List.append_assoc]
    have hall : (answered.map Prod.snd ++ [events]).Pairwise (· <+: ·) := h.moments
    rw [List.pairwise_append] at hall ⊢
    refine ⟨hall.1, by simp, ?_⟩
    intro pre hpre last hlast
    have hle : pre <+: events := hall.2.2 pre hpre events List.mem_cons_self
    rcases List.mem_pair.mp hlast with rfl | rfl
    · exact hle
    · exact hle.trans (List.prefix_append _ _)
  · -- the new answer is number `answered.length`, and so is its report
    have hsent : (((watches ι r).after events).streams i).sent[answered.length]? = some rep := by
      have hget : (answered.map Prod.fst ++ [rep])[answered.length]? = some rep := by simp
      rw [hreports, List.getElem?_take] at hget
      split at hget
      · exact hget
      · cases hget
    intro k x hx
    rcases Nat.lt_trichotomy k answered.length with hlt | rfl | hgt
    · rw [List.getElem?_append_left hlt] at hx
      exact h.timely k x hx
    · obtain rfl : (rep, events) = x := by simpa using hx
      exact hsent
    · rw [List.getElem?_eq_none (by simp; omega)] at hx
      cases hx

/-- **One event**, whatever it does to the stream. -/
theorem Stream.Answered.step (h : (((watches ι r).after events).streams i).Answered r i events answered)
    (e : StreamEvent ι) :
    ∃ answered', (((watches ι r).after (events ++ [e])).streams i).Answered r i (events ++ [e]) answered' := by
  have hmoves := ((watches ι r).after events).step_moves e i
  rw [Machine.after_snoc]
  show ∃ answered', Stream.Answered r i (events ++ [e]) ((((watches ι r).after events).step e).streams i) answered'
  generalize (((watches ι r).after events).step e).streams i = s' at hmoves
  have hlast := @Stream.Answered.decide ι _ r i events answered
  generalize ((watches ι r).after events).streams i = s at h hmoves hlast
  cases hmoves with
  | same => exact ⟨_, h.keep e ⟨rfl, rfl⟩ h.read h.commands (fun hrecv => ⟨hrecv, rfl⟩) h.capacity⟩
  | sent rep hopen =>
      refine ⟨_, h.keep e ⟨rfl, ?_⟩ ?_ h.commands (fun hrecv => ⟨hrecv, rfl⟩) h.capacity⟩
      · exact List.take_append_of_le_length h.read
      · have := h.read
        simp
        omega
  | closed => exact ⟨_, h.keep e ⟨rfl, rfl⟩ h.read h.commands (fun hrecv => ⟨hrecv, rfl⟩) h.capacity⟩
  | received cmd rest hch =>
      have hcommands : s.received ++ [cmd] ++ rest = s.commands := by simp [Stream.commands, hch]
      have hcap := h.capacity
      rw [hch, List.length_cons] at hcap
      refine ⟨_, h.keep e ⟨rfl, rfl⟩ h.read ?_ (fun hrecv => ⟨hrecv, ?_⟩) (Nat.le_of_succ_le hcap)⟩
      · show s.received ++ [cmd] ++ rest <+: _
        rw [hcommands]
        exact h.commands
      · show s.received ++ [cmd] ++ rest ++ _ = _
        rw [hcommands]
  | hungUp =>
      refine ⟨_, h.keep e ⟨rfl, rfl⟩ h.read ?_ (fun hrecv => by cases hrecv) (Nat.zero_le _)⟩
      show s.received ++ [] <+: _
      rw [List.append_nil]
      exact (List.prefix_append _ _).trans h.commands
  | broke hphase _ => exact ⟨_, h.phase e (by rw [hphase]; rfl) (fun _ => by rw [hphase]; rfl)⟩
  | finished hphase _ _ => exact ⟨_, h.phase e (by rw [hphase]; rfl) (fun _ => by rw [hphase]; rfl)⟩
  | heartbeat rep hphase => exact ⟨_, h.phase e (by rw [hphase]; rfl) (fun _ => by rw [hphase]; rfl)⟩
  | refused cmd hphase hrecv =>
      refine ⟨_, h.phase e (by rw [hphase]; rfl) (fun hrecv' => ?_)⟩
      rw [hrecv] at hrecv'
      cases hrecv'
  | read rep hphase hnext =>
      obtain ⟨hlt, hget⟩ := List.getElem?_eq_some_iff.mp hnext
      have hreports := h.reports
      have hcomplete := h.complete
      rw [hphase] at hreports hcomplete
      refine ⟨_, ?_, hlt, h.commands, hcomplete, moments_later h.moments e, h.timely, h.capacity⟩
      show answered.map Prod.fst ++ [rep] = s.sent.take (s.read + 1)
      rw [List.take_succ_eq_append_getElem hlt, hget, ← hreports]
      simp [StreamPhase.pending]
  | queued cmd hphase hrecv hroom =>
      have hcomplete := h.complete hrecv
      rw [hphase] at hcomplete
      have hcommands : s.received ++ (s.channel ++ [cmd]) = answered.map (decision r) := by
        rw [← List.append_assoc]
        exact hcomplete
      refine ⟨_, h.keep e ⟨by rw [hphase]; rfl, rfl⟩ h.read ?_ (fun _ => ⟨hrecv, ?_⟩) ?_⟩
      · exact hcommands ▸ List.prefix_rfl
      · show s.received ++ (s.channel ++ [cmd]) ++ [] = s.received ++ s.channel ++ s.phase.unsent
        rw [hphase]
        simp [StreamPhase.unsent]
      · simp only [List.length_append, List.length_singleton]
        omega
  | decided rep hphase => exact ⟨_, hlast h e hphase⟩

theorem answered_after (r : Inner) (i : ι) (events : List (StreamEvent ι)) :
    ∃ answered, (((watches ι r).after events).streams i).Answered r i events answered := by
  induction events using List.reverseRecOn with
  | nil => exact ⟨[], rfl, Nat.le_refl _, List.prefix_rfl, fun _ => rfl, by simp, by simp, Nat.zero_le _⟩
  | append_singleton events e ih =>
      obtain ⟨answered, h⟩ := ih
      exact h.step e

/-! ## §4 Ends of streams. -/

theorem Stream.Moves.sent_grows {broken : Bool} {s s' : Stream} (h : s.Moves r broken s') : s.sent <+: s'.sent := by
  cases h <;> first | exact List.prefix_rfl | exact List.prefix_append _ _

/-- Reports stay sent. -/
theorem sent_later (r : Inner) (i : ι) {pre events : List (StreamEvent ι)} (h : pre <+: events) :
    (((watches ι r).after pre).streams i).sent <+: (((watches ι r).after events).streams i).sent := by
  obtain ⟨more, rfl⟩ := h
  exact (watches ι r).keeps (K := fun _ => True)
    (I := fun w => (((watches ι r).after pre).streams i).sent <+: (w.streams i).sent)
    (fun w e _ hsent => hsent.trans (w.step_moves e i).sent_grows) (fun _ _ => trivial) List.prefix_rfl

/-- A task whose transport and client have held out ends after the last report. -/
def Stream.RunsOut (s : Stream) : Prop :=
  s.phase = .ended → s.receiving = true → s.closed = true ∧ s.sent.length ≤ s.read

theorem Stream.Moves.runsOut {s s' : Stream} (h : s.Moves r false s') (hs : s.RunsOut) : s'.RunsOut := by
  intro hended hrecv
  cases h with
  | same => exact hs hended hrecv
  | sent rep hopen =>
      have hclosed := (hs hended hrecv).1
      rw [hopen] at hclosed
      cases hclosed
  | closed => exact ⟨rfl, (hs hended hrecv).2⟩
  | received cmd rest _ => exact hs hended hrecv
  | hungUp => cases hrecv
  | broke _ hbroken => cases hbroken
  | finished _ hnext hclosed => exact ⟨hclosed, List.getElem?_eq_none_iff.mp hnext⟩
  | refused cmd _ hrefused =>
      have hrecv' : s.receiving = true := hrecv
      rw [hrefused] at hrecv'
      cases hrecv'
  | read rep _ _ => cases hended
  | heartbeat rep _ => cases hended
  | decided rep _ => cases hended
  | queued cmd _ _ _ => cases hended

theorem runsOut_after (r : Inner) (i : ι) {events : List (StreamEvent ι)} (h : ∀ e ∈ events, e.breaks i = false) :
    (((watches ι r).after events).streams i).RunsOut := by
  have hnil : (((watches ι r).after []).streams i).RunsOut := fun hended => by cases hended
  refine (watches ι r).keeps (K := fun e => e.breaks i = false) (I := fun w => (w.streams i).RunsOut) ?_ h hnil
  intro w e he hs
  have hmoves := w.step_moves e i
  rw [he] at hmoves
  exact hmoves.runsOut hs

/-! ## §5 The results. -/

/-- **Every report has its answer, in order.** For every interleaving of any number of streams with each other
and with the other calls of the registry, and for every stream:

* at most 32 commands wait in the channel;
* command number `k` is the answer to report number `k`, from the desired state at some moment of the run; the
  moments are in the order of the reports, and none is before its report was sent, so no answer is about an older
  desired state than one that was current before;
* a task whose transport has not failed and whose client has not hung up ends only when it has answered every
  report, and all its commands are in the channel or with the client. -/
theorem watch_answers_in_order (r : Inner) (i : ι) (events : List (StreamEvent ι)) :
    let s := ((watches ι r).after events).streams i
    s.channel.length ≤ 32 ∧
      ∃ answered : List (EdgeReport × List (StreamEvent ι)),
        answered.map Prod.fst <+: s.sent ∧ s.commands <+: answered.map (decision r) ∧
          (answered.map Prod.snd).Pairwise (· <+: ·) ∧
          (∀ (k : Nat) (rep : EdgeReport) (pre : List (StreamEvent ι)), answered[k]? = some (rep, pre) →
            pre <+: events ∧ ∀ before, before <+: events → (((watches ι r).after before).streams i).sent.length ≤ k →
              Since ((watches ι r).after before).registry ((watches ι r).after pre).registry) ∧
          (s.phase = .ended → s.receiving = true → (∀ e ∈ events, e.breaks i = false) →
            answered.map Prod.fst = s.sent ∧ s.commands = answered.map (decision r)) := by
  intro s
  obtain ⟨answered, h⟩ := answered_after r i events
  have hmoments := List.pairwise_append.mp h.moments
  refine ⟨h.capacity, answered, ?_, h.commands, hmoments.1, ?_, ?_⟩
  · have hread : answered.map Prod.fst <+: s.sent.take s.read := h.reports ▸ List.prefix_append _ _
    exact hread.trans (List.take_prefix _ _)
  · intro k rep pre hk
    have hpre : pre <+: events :=
      hmoments.2.2 pre (List.mem_map.mpr ⟨_, List.mem_of_getElem? hk, rfl⟩) events List.mem_cons_self
    refine ⟨hpre, ?_⟩
    intro before hbefore hunsent
    rcases List.prefix_or_prefix_of_prefix hbefore hpre with hle | hle
    · exact watches_since r hle
    · -- report `k` was sent by the moment of its answer, and stays sent
      have hlen := (sent_later r i hle).length_le
      have hlt : k < (((watches ι r).after pre).streams i).sent.length :=
        (List.getElem?_eq_some_iff.mp (h.timely k _ hk)).1
      omega
  · intro hended hrecv hunbroken
    have hout := (runsOut_after r i hunbroken hended hrecv).2
    have hreports := h.reports
    have hcomplete := h.complete hrecv
    rw [hended] at hreports hcomplete
    simp only [StreamPhase.pending, StreamPhase.unsent, List.append_nil] at hreports hcomplete
    exact ⟨hreports.trans (List.take_of_length_le hout), hcomplete⟩

/-- The seq and the policy of a command that delivers one. -/
def CloudCommand.pushed : CloudCommand → Option (Nat × Policy)
  | ⟨seq, some (.policyUpdate (some p))⟩ => some (seq, p)
  | _ => none

omit [DecidableEq ι] in
/-- What a command delivers is the desired state that its task has read. -/
theorem answer_pushed {r : Inner} {rep : EdgeReport} {seq : Nat} {p : Policy}
    (h : (rep.answer r.currentPolicy).pushed = some (seq, p)) : r.policySeq = seq ∧ r.policy = some p := by
  unfold Inner.currentPolicy EdgeReport.answer at h
  cases hpolicy : r.policy with
  | none =>
      rw [hpolicy] at h
      cases h
  | some q =>
      rw [hpolicy] at h
      simp only at h
      split at h
      · cases h
        exact ⟨rfl, rfl⟩
      · cases h

/-- Every policy that a client is sent is the desired state of a moment of the run. -/
theorem pushed_moment {cmd : CloudCommand} {seq : Nat} {p : Policy}
    (hcmd : cmd ∈ (((watches ι r).after events).streams i).commands) (hpushed : cmd.pushed = some (seq, p)) :
    ∃ pre, pre <+: events ∧ ((watches ι r).after pre).registry.policySeq = seq ∧
      ((watches ι r).after pre).registry.policy = some p := by
  obtain ⟨answered, h⟩ := answered_after r i events
  obtain ⟨x, hx, rfl⟩ := List.mem_map.mp (h.commands.subset hcmd)
  have hpre : x.2 <+: events :=
    (List.pairwise_append.mp h.moments).2.2 x.2 (List.mem_map.mpr ⟨x, hx, rfl⟩) events List.mem_cons_self
  exact ⟨x.2, hpre, answer_pushed hpushed⟩

/-- **What is pushed never goes back.** For every interleaving: the seqs of the policies that one stream delivers
never decrease, and two policies delivered at one seq, on the same or on different streams, are the same. -/
theorem watch_updates_ordered (r : Inner) (events : List (StreamEvent ι)) :
    let w := (watches ι r).after events
    (∀ i, ((w.streams i).commands.filterMap CloudCommand.pushed).Pairwise fun x y => x.1 ≤ y.1) ∧
      ∀ i j seq p q, CloudCommand.update seq p ∈ (w.streams i).commands →
        CloudCommand.update seq q ∈ (w.streams j).commands → p = q := by
  intro w
  constructor
  · intro i
    obtain ⟨answered, h⟩ := answered_after r i events
    have hmoments : answered.Pairwise fun x y => x.2 <+: y.2 :=
      List.pairwise_map.mp (List.pairwise_append.mp h.moments).1
    have hall : ((answered.map (decision r)).filterMap CloudCommand.pushed).Pairwise fun x y => x.1 ≤ y.1 := by
      refine List.pairwise_filterMap.mpr (List.pairwise_map.mpr (hmoments.imp ?_))
      rintro x y hxy ⟨seq, p⟩ hx ⟨seq', q⟩ hy
      obtain ⟨rfl, _⟩ := answer_pushed hx
      obtain ⟨rfl, _⟩ := answer_pushed hy
      exact (watches_since r hxy).le
    exact hall.sublist (h.commands.sublist.filterMap _)
  · intro i j seq p q hp hq
    obtain ⟨pre, hpre, hseq, hpolicy⟩ := pushed_moment hp rfl
    obtain ⟨pre', hpre', hseq', hpolicy'⟩ := pushed_moment hq rfl
    -- two moments of one run, and the same seq at both
    rcases List.prefix_or_prefix_of_prefix hpre hpre' with hle | hle
    · have hsame := ((watches_since r hle).same (hseq.trans hseq'.symm)).1
      exact Option.some.inj (hpolicy.symm.trans (hsame.symm.trans hpolicy'))
    · have hsame := ((watches_since r hle).same (hseq'.trans hseq.symm)).1
      exact Option.some.inj (hpolicy.symm.trans (hsame.trans hpolicy'))

end

end Edgewarden.Registry
