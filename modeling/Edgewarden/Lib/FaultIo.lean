/-
# Edgewarden.Lib.FaultIo — programs whose I/O may fail, tear, or be cut by process death.

A `Prog μ ρ α` is a tree of I/O requests `ρ`. Every request is annotated with the process memory
`μ` at the moment it is issued, so an invariant that ties memory to disk can be stated AT each
request and not only between calls. A `Device` says what a completed request does to the disk and
what a request that failed, or was cut by the death of the process, may leave behind.

* `Prog.exec` runs one program under an explicit list of `Fault`s and is total and executable: an
  exhausted list means that everything else succeeds.
* `System.run` runs a schedule of calls, each on the memory and disk its predecessor left.
* `Prog.Follows` is the per-call obligation: every request (and the final value) obeys a micro-step
  relation, whatever the device answers. It is proved ONCE for each call of a system.
* `Prog.Ends` is the exact counterpart: how a program ends under one given list of faults.
* `Prog.Aborts` tells the ends after an error of a `fatal` request from all others.
* `Invariant.along_run` is the per-property obligation: an invariant (with ghost data) kept by the
  micro-step relation holds at every moment of every run.

* `System.run_map` carries runs from a device that keeps track of more to one that keeps track of less.

Nothing in this module is about a particular program.
-/
import Mathlib.Data.List.Basic
import Mathlib.Tactic.Common

namespace Edgewarden.FaultIo

universe u v w x

/-! ## §1 Programs and devices. -/

/-- A tree of I/O requests; the memory `m` is what the process holds when it issues `q`, and the
continuation receives whether the request succeeded. -/
inductive Prog (μ : Type u) (ρ : Type v) (α : Type w) : Type (max u v w)
  | done (a : α)
  | call (m : μ) (q : ρ) (k : Bool → Prog μ ρ α)

namespace Prog

variable {μ : Type u} {ρ : Type v} {α β : Type w}

def bind : Prog μ ρ α → (α → Prog μ ρ β) → Prog μ ρ β
  | done a, f => f a
  | call m q k, f => call m q fun b => (k b).bind f

instance : Monad (Prog μ ρ) where
  pure := done
  bind := bind

@[simp] theorem pure_eq (a : α) : (pure a : Prog μ ρ α) = done a := rfl

@[simp] theorem done_bind (a : α) (f : α → Prog μ ρ β) : (done a >>= f) = f a := rfl

@[simp] theorem call_bind (m : μ) (q : ρ) (k : Bool → Prog μ ρ α) (f : α → Prog μ ρ β) :
    (call m q k >>= f) = call m q fun b => k b >>= f := rfl

theorem bind_assoc {γ : Type w} (p : Prog μ ρ α) (f : α → Prog μ ρ β) (g : β → Prog μ ρ γ) :
    p >>= f >>= g = p >>= fun a => f a >>= g := by
  induction p with
  | done a => rfl
  | call m q k ih =>
      simp only [call_bind, ih]

end Prog

/-- The answer of the environment to one request. `fail` reports an error to the program, `die`
kills the process during the request; both leave the torn effect `t` behind. -/
inductive Fault (τ : Type u)
  | ok
  | fail (t : τ)
  | die (t : τ)
  deriving DecidableEq, Repr

/-- What requests do to the disk: when they complete, and when they are cut short. -/
structure Device (ρ : Type u) (τ : Type v) (δ : Type w) where
  complete : ρ → δ → δ
  tear : ρ → τ → δ → δ

/-- The disk after one answered request. -/
def Device.after {ρ : Type u} {τ : Type v} {δ : Type w} (dev : Device ρ τ δ) (q : ρ) (d : δ) :
    Fault τ → δ
  | .ok => dev.complete q d
  | .fail t => dev.tear q t d
  | .die t => dev.tear q t d

/-- What a process leaves visible: its memory and its disk. -/
structure World (μ : Type u) (δ : Type v) where
  mem : μ
  disk : δ

/-- One observable moment of a call. `prev` is the memory at the previous moment, `mem` the memory
at this one; `disk` is the disk before the request. -/
inductive Event (μ ρ τ δ β : Type)
  | io (prev mem : μ) (req : ρ) (fault : Fault τ) (disk : δ)
  | ret (prev mem : μ) (reply : β) (disk : δ)

/-! ## §2 Execution. -/

section Exec

variable {κ μ ρ τ δ β : Type}

/-- Run one program. Death drops the memory to `dead` and ends the program. -/
def Prog.exec (dev : Device ρ τ δ) (dead : μ) :
    Prog μ ρ (β × μ) → μ → List (Fault τ) → δ → List (Event μ ρ τ δ β) × World μ δ
  | .done a, m, _, d => ([.ret m a.2 a.1 d], ⟨a.2, d⟩)
  | .call m' q k, m, fs, d =>
      match fs.headD .ok with
      | .ok =>
          let r := (k true).exec dev dead m' fs.tail (dev.complete q d)
          (.io m m' q .ok d :: r.1, r.2)
      | .fail t =>
          let r := (k false).exec dev dead m' fs.tail (dev.tear q t d)
          (.io m m' q (.fail t) d :: r.1, r.2)
      | .die t => ([.io m m' q (.die t) d], ⟨dead, dev.tear q t d⟩)

/-- A set of calls over one device. A call's program may depend on the world it is issued in. -/
structure System (κ μ ρ τ δ β : Type) where
  dev : Device ρ τ δ
  dead : μ
  prog : κ → World μ δ → Prog μ ρ (β × μ)

/-- An event together with the call it belongs to and the world that call was issued in. -/
structure Step (κ μ ρ τ δ β : Type) where
  call : κ
  entry : World μ δ
  event : Event μ ρ τ δ β

/-- Run a schedule: each call with its own fault list, on the world its predecessor left. -/
def System.run (sys : System κ μ ρ τ δ β) :
    List (κ × List (Fault τ)) → World μ δ → List (Step κ μ ρ τ δ β) × World μ δ
  | [], w => ([], w)
  | (c, fs) :: rest, w =>
      let r := (sys.prog c w).exec sys.dev sys.dead w.mem fs w.disk
      let r' := sys.run rest r.2
      (r.1.map (Step.mk c w) ++ r'.1, r'.2)

/-- A schedule in two parts. -/
theorem System.run_append (sys : System κ μ ρ τ δ β) (xs ys : List (κ × List (Fault τ))) (w : World μ δ) :
    sys.run (xs ++ ys) w =
      ((sys.run xs w).1 ++ (sys.run ys (sys.run xs w).2).1, (sys.run ys (sys.run xs w).2).2) := by
  induction xs generalizing w with
  | nil => rfl
  | cons x xs ih => simp only [List.cons_append, System.run, ih, List.append_assoc]

/-- The world an event starts from and the one it leaves, given the device and the dead memory. -/
def Event.before : Event μ ρ τ δ β → World μ δ
  | .io _ m _ _ d => ⟨m, d⟩
  | .ret _ m _ d => ⟨m, d⟩

def Event.after (dev : Device ρ τ δ) (dead : μ) : Event μ ρ τ δ β → World μ δ
  | .io _ _ q (.die t) d => ⟨dead, dev.tear q t d⟩
  | .io _ m q f d => ⟨m, dev.after q d f⟩
  | .ret _ m _ d => ⟨m, d⟩

theorem System.call_mem_of_mem_run (sys : System κ μ ρ τ δ β) {sched : List (κ × List (Fault τ))}
    {w : World μ δ} {s : Step κ μ ρ τ δ β} (hs : s ∈ (sys.run sched w).1) :
    ∃ fs, (s.call, fs) ∈ sched := by
  induction sched generalizing w with
  | nil => cases hs
  | cons head rest ih =>
      rcases List.mem_append.mp hs with hs | hs
      · obtain ⟨e, _, rfl⟩ := List.mem_map.mp hs
        exact ⟨head.2, List.mem_cons_self⟩
      · obtain ⟨fs, hfs⟩ := ih hs
        exact ⟨fs, List.mem_cons_of_mem _ hfs⟩

/-- The request of an event, if it is one. -/
def Event.request : Event μ ρ τ δ β → Option ρ
  | .io _ _ q _ _ => some q
  | .ret _ _ _ _ => none

/-- Only requests in `mf` report an error; the process may die anywhere. -/
def FailsOnly (mf : ρ → Prop) (s : Step κ μ ρ τ δ β) : Prop :=
  match s.event with
  | .io _ _ q (.fail _) _ => mf q
  | _ => True

/-- The reply of an event, if it is a return. -/
def Event.reply : Event μ ρ τ δ β → Option β
  | .io _ _ _ _ _ => none
  | .ret _ _ b _ => some b

/-- The request of an event that reported an error. -/
def Event.failed : Event μ ρ τ δ β → Option ρ
  | .io _ _ q (.fail _) _ => some q
  | _ => none

/-- An error of a request in `fatal`. -/
def Event.Fatal (fatal : ρ → Prop) (e : Event μ ρ τ δ β) : Prop := ∃ q, e.failed = some q ∧ fatal q

/-- A program returns once, with what it leaves. -/
theorem Prog.exec_ret_after (dev : Device ρ τ δ) (dead : μ) (p : Prog μ ρ (β × μ)) (m : μ)
    (fs : List (Fault τ)) (d : δ) :
    ∀ e ∈ (p.exec dev dead m fs d).1, ∀ b, e.reply = some b →
      e.after dev dead = (p.exec dev dead m fs d).2 := by
  induction p generalizing m fs d with
  | done a =>
      intro e he b _
      rw [List.mem_singleton.mp he]
      rfl
  | call m' q k ih =>
      unfold Prog.exec
      intro e he b hb
      cases hf : fs.headD .ok with
      | ok =>
          rw [hf] at he
          rcases List.mem_cons.mp he with rfl | he
          · cases hb
          · exact ih true m' fs.tail _ e he b hb
      | fail t =>
          rw [hf] at he
          rcases List.mem_cons.mp he with rfl | he
          · cases hb
          · exact ih false m' fs.tail _ e he b hb
      | die t =>
          rw [hf] at he
          rw [List.mem_singleton.mp he] at hb
          cases hb

/-- The run of a program in which every request completes. -/
def Prog.quiet {α : Type} (dev : Device ρ τ δ) : Prog μ ρ α → δ → α × δ
  | .done a, d => (a, d)
  | .call _ q k, d => (k true).quiet dev (dev.complete q d)

theorem Prog.quiet_bind {α α' : Type} (dev : Device ρ τ δ) (p : Prog μ ρ α) (f : α → Prog μ ρ α')
    (d : δ) :
    (p >>= f).quiet dev d = (f (p.quiet dev d).1).quiet dev (p.quiet dev d).2 := by
  induction p generalizing d with
  | done a => rfl
  | call m q k ih => exact ih true (dev.complete q d)

/-- The run of a program whose process lives: `some t` is a request that fails and leaves `t` behind, and
an exhausted list means that everything else completes. -/
def Prog.survive {α : Type} (dev : Device ρ τ δ) : Prog μ ρ α → List (Option τ) → δ → α × δ
  | .done a, _, d => (a, d)
  | .call _ q k, failures, d =>
      match failures.headD none with
      | none => (k true).survive dev failures.tail (dev.complete q d)
      | some t => (k false).survive dev failures.tail (dev.tear q t d)

/-- An execution without faults leaves the world of the quiet run ... -/
theorem Prog.exec_nil_world (dev : Device ρ τ δ) (dead : μ) (p : Prog μ ρ (β × μ)) (m : μ)
    (d : δ) : (p.exec dev dead m [] d).2 = ⟨(p.quiet dev d).1.2, (p.quiet dev d).2⟩ := by
  induction p generalizing m d with
  | done a => rfl
  | call m' q k ih => exact ih true m' (dev.complete q d)

/-- ... and returns its reply, once. -/
theorem Prog.exec_nil_reply (dev : Device ρ τ δ) (dead : μ) (p : Prog μ ρ (β × μ)) (m : μ)
    (d : δ) : (p.exec dev dead m [] d).1.filterMap Event.reply = [(p.quiet dev d).1.1] := by
  induction p generalizing m d with
  | done a => rfl
  | call m' q k ih => exact ih true m' (dev.complete q d)

theorem Prog.exec_deaths_failsOnly {dev : Device ρ τ δ} {dead : μ} {mf : ρ → Prop} {c : κ}
    {w₀ : World μ δ} (p : Prog μ ρ (β × μ)) (m : μ) {fs : List (Fault τ)} (d : δ)
    (hfs : ∀ f ∈ fs, ∀ t, f ≠ .fail t) :
    ∀ e ∈ (p.exec dev dead m fs d).1, FailsOnly mf (Step.mk c w₀ e) := by
  induction p generalizing m fs d with
  | done a => simp [Prog.exec, FailsOnly]
  | call m' q k ih =>
      have htail : ∀ f ∈ fs.tail, ∀ t, f ≠ .fail t := fun f hf => hfs f (List.mem_of_mem_tail hf)
      intro e he
      unfold Prog.exec at he
      cases hf : fs.headD .ok with
      | ok =>
          rw [hf] at he
          rcases List.mem_cons.mp he with rfl | he
          · trivial
          · exact ih true m' _ htail e he
      | fail t =>
          -- the head of the list, which is not a failure
          cases fs with
          | nil => cases hf
          | cons f rest => exact absurd hf (hfs f List.mem_cons_self t)
      | die t =>
          rw [hf] at he
          rw [List.mem_singleton.mp he]
          trivial

/-- A schedule that injects no fault but deaths sees no error. -/
theorem System.run_deaths_failsOnly (sys : System κ μ ρ τ δ β) {mf : ρ → Prop}
    {sched : List (κ × List (Fault τ))} (hfs : ∀ c ∈ sched, ∀ f ∈ c.2, ∀ t, f ≠ .fail t)
    (w : World μ δ) : ∀ s ∈ (sys.run sched w).1, FailsOnly mf s := by
  induction sched generalizing w with
  | nil => exact nofun
  | cons head rest ih =>
      intro s hs
      rcases List.mem_append.mp hs with hs | hs
      · obtain ⟨e, he, rfl⟩ := List.mem_map.mp hs
        exact Prog.exec_deaths_failsOnly _ _ _ (hfs head List.mem_cons_self) e he
      · exact ih (fun c hc => hfs c (List.mem_cons_of_mem _ hc)) _ s hs

/-- A schedule that injects no fault sees no error. -/
theorem System.run_nil_failsOnly (sys : System κ μ ρ τ δ β) {mf : ρ → Prop}
    {sched : List (κ × List (Fault τ))} (hnil : ∀ c ∈ sched, c.2 = []) (w : World μ δ) :
    ∀ s ∈ (sys.run sched w).1, FailsOnly mf s := by
  refine sys.run_deaths_failsOnly ?_ w
  intro c hc
  rw [hnil c hc]
  exact nofun

end Exec

/-! ## §3 The per-call obligation. -/

namespace Prog

variable {μ : Type u} {ρ : Type v} {τ : Type x} {δ : Type x} {α β : Type w}

/-- Every request of the program, issued after memory `m` on disk `d`, obeys `R`, and every final
value obeys `E`, whatever the device answers. Requests outside `mf` are taken not to fail. -/
def Follows (dev : Device ρ τ δ) (mf : ρ → Prop) (R : μ → δ → μ → ρ → Prop) (E : μ → δ → α → Prop) :
    Prog μ ρ α → μ → δ → Prop
  | done a, m, d => E m d a
  | call m' q k, m, d =>
      R m d m' q ∧ (k true).Follows dev mf R E m' (dev.complete q d) ∧
        (mf q → ∀ t, (k false).Follows dev mf R E m' (dev.tear q t d))

variable {dev : Device ρ τ δ} {mf : ρ → Prop} {R : μ → δ → μ → ρ → Prop}

@[simp] theorem follows_done {E : μ → δ → α → Prop} {a : α} {m : μ} {d : δ} :
    (done a : Prog μ ρ α).Follows dev mf R E m d ↔ E m d a := Iff.rfl

@[simp] theorem follows_call {E : μ → δ → α → Prop} {m m' : μ} {q : ρ} {k : Bool → Prog μ ρ α}
    {d : δ} : (call m' q k).Follows dev mf R E m d ↔
      R m d m' q ∧ (k true).Follows dev mf R E m' (dev.complete q d) ∧
        (mf q → ∀ t, (k false).Follows dev mf R E m' (dev.tear q t d)) := Iff.rfl

/-- Sequencing: the second program starts where the first one may end. -/
theorem follows_bind {E : μ → δ → β → Prop} {p : Prog μ ρ α} {f : α → Prog μ ρ β} {m : μ} {d : δ} :
    (p >>= f).Follows dev mf R E m d ↔
      p.Follows dev mf R (fun m' d' a => (f a).Follows dev mf R E m' d') m d := by
  induction p generalizing m d with
  | done a => rfl
  | call m' q k ih => simp only [call_bind, follows_call, ih]

/-- Where nothing is asked of requests and values. -/
theorem follows_true (p : Prog μ ρ α) (m : μ) (d : δ) :
    p.Follows dev mf (fun _ _ _ _ => True) (fun _ _ _ => True) m d := by
  induction p generalizing m d with
  | done a => trivial
  | call m' q k ih => exact ⟨trivial, ih _ _ _, fun _ _ => ih _ _ _⟩

theorem Follows.mono {E E' : μ → δ → α → Prop} {p : Prog μ ρ α} {m : μ} {d : δ}
    (h : p.Follows dev mf R E m d) (hE : ∀ m d a, E m d a → E' m d a) :
    p.Follows dev mf R E' m d := by
  induction p generalizing m d with
  | done a => exact hE _ _ _ h
  | call m' q k ih =>
      obtain ⟨hR, hok, hfail⟩ := h
      exact ⟨hR, ih _ hok, fun hq t => ih _ (hfail hq t)⟩

theorem Follows.mono_requests {R' : μ → δ → μ → ρ → Prop} {E : μ → δ → α → Prop} {p : Prog μ ρ α}
    {m : μ} {d : δ} (h : p.Follows dev mf R E m d) (hR : ∀ m d m' q, R m d m' q → R' m d m' q) :
    p.Follows dev mf R' E m d := by
  induction p generalizing m d with
  | done a => exact h
  | call m' q k ih =>
      obtain ⟨hq, hok, hfail⟩ := h
      exact ⟨hR _ _ _ _ hq, ih _ hok, fun hmf t => ih _ (hfail hmf t)⟩

/-- Two obligations of one program are one obligation. -/
theorem Follows.and {R' : μ → δ → μ → ρ → Prop} {E E' : μ → δ → α → Prop} {p : Prog μ ρ α} {m : μ}
    {d : δ} (h : p.Follows dev mf R E m d) (h' : p.Follows dev mf R' E' m d) :
    p.Follows dev mf (fun m d m' q => R m d m' q ∧ R' m d m' q) (fun m d a => E m d a ∧ E' m d a) m d := by
  induction p generalizing m d with
  | done a => exact ⟨h, h'⟩
  | call m' q k ih =>
      obtain ⟨hR, hok, hfail⟩ := h
      obtain ⟨hR', hok', hfail'⟩ := h'
      exact ⟨⟨hR, hR'⟩, ih _ hok hok', fun hq t => ih _ (hfail hq t) (hfail' hq t)⟩

/-- How an execution may end: cut at one of its requests, or with a value that obeys `E`. -/
theorem Follows.outcome {μ ρ τ δ β : Type} {dev : Device ρ τ δ} {R : μ → δ → μ → ρ → Prop}
    {E : μ → δ → β × μ → Prop} (dead : μ) {p : Prog μ ρ (β × μ)} {m : μ} (fs : List (Fault τ)) {d : δ}
    (h : p.Follows dev (fun _ => True) R E m d) :
    (∃ m₁ d₁ m' q t, R m₁ d₁ m' q ∧ (p.exec dev dead m fs d).2 = ⟨dead, dev.tear q t d₁⟩ ∧
        (p.exec dev dead m fs d).1.filterMap Event.reply = []) ∨
      ∃ m₁ d₁ b m', E m₁ d₁ (b, m') ∧ (p.exec dev dead m fs d).2 = ⟨m', d₁⟩ ∧
        (p.exec dev dead m fs d).1.filterMap Event.reply = [b] := by
  induction p generalizing m fs d with
  | done a => exact .inr ⟨m, d, a.1, a.2, h, rfl, rfl⟩
  | call m' q k ih =>
      obtain ⟨hR, hok, hfail⟩ := h
      unfold Prog.exec
      cases fs.headD .ok with
      | ok => exact ih true fs.tail hok
      | fail t => exact ih false fs.tail (hfail trivial t)
      | die t => exact .inl ⟨m, d, m', q, t, hR, rfl, rfl⟩

/-- How the program ends under a list of faults: with a value, where `E` holds of the faults that are
left over, the disk and the value, or cut by the death of the process, where `D` holds of the disk. -/
def Ends {μ ρ τ δ α : Type} (dev : Device ρ τ δ) (D : δ → Prop) (E : List (Fault τ) → δ → α → Prop) :
    Prog μ ρ α → List (Fault τ) → δ → Prop
  | done a, fs, d => E fs d a
  | call _ q k, fs, d =>
      match fs.headD .ok with
      | .ok => (k true).Ends dev D E fs.tail (dev.complete q d)
      | .fail t => (k false).Ends dev D E fs.tail (dev.tear q t d)
      | .die t => D (dev.tear q t d)

section Ends

variable {μ ρ τ δ α β : Type} {dev : Device ρ τ δ} {D : δ → Prop}

theorem ends_bind {E : List (Fault τ) → δ → β → Prop} {p : Prog μ ρ α} {f : α → Prog μ ρ β}
    {fs : List (Fault τ)} {d : δ} :
    (p >>= f).Ends dev D E fs d ↔
      p.Ends dev D (fun fs' d' a => (f a).Ends dev D E fs' d') fs d := by
  induction p generalizing fs d with
  | done a => rfl
  | call m q k ih =>
      rw [call_bind]
      unfold Ends
      cases fs.headD .ok with
      | ok => exact ih true
      | fail t => exact ih false
      | die t => rfl

theorem Ends.mono {E E' : List (Fault τ) → δ → α → Prop} {p : Prog μ ρ α} {fs : List (Fault τ)} {d : δ}
    (h : p.Ends dev D E fs d) (hE : ∀ fs d a, E fs d a → E' fs d a) : p.Ends dev D E' fs d := by
  induction p generalizing fs d with
  | done a => exact hE _ _ _ h
  | call m q k ih =>
      unfold Ends at h ⊢
      cases hf : fs.headD .ok with
      | ok =>
          rw [hf] at h
          exact ih true h
      | fail t =>
          rw [hf] at h
          exact ih false h
      | die t =>
          rw [hf] at h
          exact h

theorem Ends.outcome {E : List (Fault τ) → δ → β × μ → Prop} (dead : μ) {p : Prog μ ρ (β × μ)} (m : μ)
    {fs : List (Fault τ)} {d : δ} (h : p.Ends dev D E fs d) :
    (∃ d', D d' ∧ (p.exec dev dead m fs d).2 = ⟨dead, d'⟩ ∧
        (p.exec dev dead m fs d).1.filterMap Event.reply = []) ∨
      ∃ fs' d' b m', E fs' d' (b, m') ∧ (p.exec dev dead m fs d).2 = ⟨m', d'⟩ ∧
        (p.exec dev dead m fs d).1.filterMap Event.reply = [b] := by
  induction p generalizing m fs d with
  | done a => exact .inr ⟨fs, d, a.1, a.2, h, rfl, rfl⟩
  | call m' q k ih =>
      unfold Ends at h
      unfold Prog.exec
      cases hf : fs.headD .ok with
      | ok =>
          rw [hf] at h
          exact ih true m' h
      | fail t =>
          rw [hf] at h
          exact ih false m' h
      | die t =>
          rw [hf] at h
          exact .inl ⟨_, h, rfl, rfl⟩

end Ends

/-- Every end of the program obeys `E`, except that an error of a request in `fatal` ends the program at
once, with a value that obeys `X`. -/
def Aborts {μ ρ τ δ α : Type} (dev : Device ρ τ δ) (fatal : ρ → Prop) (E X : δ → α → Prop) :
    Prog μ ρ α → δ → Prop
  | done a, d => E d a
  | call _ q k, d =>
      (k true).Aborts dev fatal E X (dev.complete q d) ∧
        (¬ fatal q → ∀ t, (k false).Aborts dev fatal E X (dev.tear q t d)) ∧
        (fatal q → ∀ t, ∃ a, k false = done a ∧ X (dev.tear q t d) a)

section Aborts

variable {μ ρ τ δ α β : Type} {dev : Device ρ τ δ} {fatal : ρ → Prop}

theorem aborts_bind {E X : δ → β → Prop} {p : Prog μ ρ α} {f : α → Prog μ ρ β} {d : δ}
    (h : p.Aborts dev fatal (fun d' a => (f a).Aborts dev fatal E X d')
      (fun d' a => ∃ b, f a = done b ∧ X d' b) d) : (p >>= f).Aborts dev fatal E X d := by
  induction p generalizing d with
  | done a => exact h
  | call m q k ih =>
      obtain ⟨hok, hfail, hfatal⟩ := h
      refine ⟨ih true hok, fun hq t => ih false (hfail hq t), ?_⟩
      intro hq t
      obtain ⟨a, ha, b, hb, hX⟩ := hfatal hq t
      refine ⟨b, ?_, hX⟩
      show (k false >>= f) = done b
      rw [ha, done_bind, hb]

theorem Aborts.mono {E E' X X' : δ → α → Prop} {p : Prog μ ρ α} {d : δ}
    (h : p.Aborts dev fatal E X d) (hE : ∀ d a, E d a → E' d a) (hX : ∀ d a, X d a → X' d a) :
    p.Aborts dev fatal E' X' d := by
  induction p generalizing d with
  | done a => exact hE _ _ h
  | call m q k ih =>
      obtain ⟨hok, hfail, hfatal⟩ := h
      refine ⟨ih true hok, fun hq t => ih false (hfail hq t), ?_⟩
      intro hq t
      obtain ⟨a, ha, hx⟩ := hfatal hq t
      exact ⟨a, ha, hX _ _ hx⟩

/-- What a program that aborts on `fatal` requests may have done: died, or returned, with `E` or after a
fatal error with `X`. -/
def Ended (fatal : ρ → Prop) (E X : δ → β × μ → Prop) (dead : μ)
    (r : List (Event μ ρ τ δ β) × World μ δ) : Prop :=
  (r.2.mem = dead ∧ (∀ e ∈ r.1, e.reply = none) ∧ ∀ e ∈ r.1, ¬ e.Fatal fatal) ∨
    ∃ b, (∃ e ∈ r.1, e.reply = some b) ∧
      ((E r.2.disk (b, r.2.mem) ∧ ∀ e ∈ r.1, ¬ e.Fatal fatal) ∨
        (X r.2.disk (b, r.2.mem) ∧ ∃ e ∈ r.1, e.Fatal fatal))

/-- A moment that is neither a return nor fatal changes nothing in that. -/
theorem Ended.cons {E X : δ → β × μ → Prop} {dead : μ} {es : List (Event μ ρ τ δ β)} {w : World μ δ}
    {e : Event μ ρ τ δ β} (h : Ended fatal E X dead (es, w)) (hreply : e.reply = none)
    (hfatal : ¬ e.Fatal fatal) : Ended fatal E X dead (e :: es, w) := by
  rcases h with ⟨hdead, hnone, hcalm⟩ | ⟨b, ⟨e', he', hb⟩, ⟨hE, hcalm⟩ | ⟨hX, e'', he'', hlost⟩⟩
  · exact .inl ⟨hdead, List.forall_mem_cons.mpr ⟨hreply, hnone⟩, List.forall_mem_cons.mpr ⟨hfatal, hcalm⟩⟩
  · refine .inr ⟨b, ⟨e', List.mem_cons_of_mem _ he', hb⟩, .inl ⟨hE, ?_⟩⟩
    exact List.forall_mem_cons.mpr ⟨hfatal, hcalm⟩
  · exact .inr ⟨b, ⟨e', List.mem_cons_of_mem _ he', hb⟩, .inr ⟨hX, e'', List.mem_cons_of_mem _ he'', hlost⟩⟩

theorem Aborts.outcome {E X : δ → β × μ → Prop} (dead : μ) {p : Prog μ ρ (β × μ)} (m : μ)
    (fs : List (Fault τ)) {d : δ} (h : p.Aborts dev fatal E X d) :
    Ended fatal E X dead (p.exec dev dead m fs d) := by
  induction p generalizing m fs d with
  | done a =>
      refine .inr ⟨a.1, ⟨_, List.mem_singleton.mpr rfl, rfl⟩, .inl ⟨h, ?_⟩⟩
      intro e he
      rw [List.mem_singleton.mp he]
      rintro ⟨_, hf, _⟩
      cases hf
  | call m' q k ih =>
      obtain ⟨hok, hfail, hfatal⟩ := h
      unfold Prog.exec
      cases fs.headD .ok with
      | ok =>
          refine Ended.cons (ih true m' fs.tail hok) rfl ?_
          rintro ⟨_, hf, _⟩
          cases hf
      | fail t =>
          by_cases hq : fatal q
          · -- the program is over: its value is the next moment
            obtain ⟨a, ha, hX⟩ := hfatal hq t
            refine .inr ⟨a.1, ⟨.ret m' a.2 a.1 (dev.tear q t d), ?_, rfl⟩,
              .inr ⟨?_, _, List.mem_cons_self, q, rfl, hq⟩⟩
            · rw [ha]
              simp [Prog.exec]
            · rw [ha]
              exact hX
          · refine Ended.cons (ih false m' fs.tail (hfail hq t)) rfl ?_
            rintro ⟨q', hf, hq'⟩
            cases hf
            exact hq hq'
      | die t =>
          refine .inl ⟨rfl, ?_, ?_⟩
          · simp [Event.reply]
          · intro e he
            rw [List.mem_singleton.mp he]
            rintro ⟨_, hf, _⟩
            cases hf

end Aborts

end Prog

/-- The first of the next `n` answers that is not `ok`. -/
def firstFault {τ : Type} : Nat → List (Fault τ) → Fault τ
  | 0, _ => .ok
  | n + 1, fs =>
      match fs.headD .ok with
      | .ok => firstFault n fs.tail
      | .fail t => .fail t
      | .die t => .die t

/-! ## §4 The per-property obligation. -/

section Rule

variable {κ μ ρ τ δ β γ : Type}

/-- `Good` holds of every element of the list, at the ghost value its predecessors computed. -/
def Along {σ : Type} (upd : γ → σ → γ) (Good : γ → σ → Prop) : γ → List σ → Prop
  | _, [] => True
  | g, s :: rest => Good g s ∧ Along upd Good (upd g s) rest

theorem along_append {σ : Type} {upd : γ → σ → γ} {Good : γ → σ → Prop} {g : γ} {xs ys : List σ} :
    Along upd Good g (xs ++ ys) ↔ Along upd Good g xs ∧ Along upd Good (xs.foldl upd g) ys := by
  induction xs generalizing g with
  | nil => simp [Along]
  | cons s rest ih => simp only [List.cons_append, Along, List.foldl_cons, ih, and_assoc]

/-- The positional reading of `Along`. -/
theorem Along.at_split {σ : Type} {upd : γ → σ → γ} {Good : γ → σ → Prop} {g : γ}
    {pre post : List σ} {s : σ} (h : Along upd Good g (pre ++ s :: post)) :
    Good (pre.foldl upd g) s :=
  (along_append.mp h).2.1

/-- Position `k` of a list as a split. -/
theorem split_at {σ : Type} {l : List σ} {k : Nat} (h : k < l.length) :
    l = l.take k ++ l[k] :: l.drop (k + 1) := by
  rw [List.getElem_cons_drop, List.take_append_drop]

/-- An invariant of a system, relative to its micro-step relations `R` (requests) and `E` (returns),
to the requests `mf` that may report an error and to the steps `adm` a run may consist of. `At` holds
between calls, `In` inside a given call issued in a given world; `upd` maintains ghost data; `Good`
is what every moment satisfies. -/
structure Invariant (sys : System κ μ ρ τ δ β) (mf : ρ → Prop) (adm : Step κ μ ρ τ δ β → Prop)
    (R : κ → World μ δ → μ → δ → μ → ρ → Prop) (E : κ → World μ δ → μ → δ → β × μ → Prop)
    (γ : Type) where
  upd : γ → Step κ μ ρ τ δ β → γ
  At : γ → World μ δ → Prop
  In : γ → κ → World μ δ → World μ δ → Prop
  Good : γ → Step κ μ ρ τ δ β → Prop
  enter : ∀ {g c w}, At g w → In g c w w
  live : ∀ {g c w₀ m d m' q f}, In g c w₀ ⟨m, d⟩ → R c w₀ m d m' q →
    adm ⟨c, w₀, .io m m' q f d⟩ → (∀ t, f ≠ .die t) → (∀ t, f = .fail t → mf q) →
    Good g ⟨c, w₀, .io m m' q f d⟩ ∧ In (upd g ⟨c, w₀, .io m m' q f d⟩) c w₀
      ⟨m', sys.dev.after q d f⟩
  die : ∀ {g c w₀ m d m' q t}, In g c w₀ ⟨m, d⟩ → R c w₀ m d m' q →
    adm ⟨c, w₀, .io m m' q (.die t) d⟩ →
    Good g ⟨c, w₀, .io m m' q (.die t) d⟩ ∧
      At (upd g ⟨c, w₀, .io m m' q (.die t) d⟩) ⟨sys.dead, sys.dev.tear q t d⟩
  ret : ∀ {g c w₀ m d b m'}, In g c w₀ ⟨m, d⟩ → E c w₀ m d (b, m') →
    adm ⟨c, w₀, .ret m m' b d⟩ →
    Good g ⟨c, w₀, .ret m m' b d⟩ ∧ At (upd g ⟨c, w₀, .ret m m' b d⟩) ⟨m', d⟩

namespace Invariant

variable {sys : System κ μ ρ τ δ β} {mf : ρ → Prop} {adm : Step κ μ ρ τ δ β → Prop}
  {R : κ → World μ δ → μ → δ → μ → ρ → Prop} {E : κ → World μ δ → μ → δ → β × μ → Prop}

/-- One call keeps the invariant, at each of its moments and at its end. -/
theorem along_exec (I : Invariant sys mf adm R E γ) {c : κ} {w₀ : World μ δ} :
    ∀ (p : Prog μ ρ (β × μ)) {g : γ} {m : μ} {fs : List (Fault τ)} {d : δ},
      p.Follows sys.dev mf (R c w₀) (E c w₀) m d → I.In g c w₀ ⟨m, d⟩ →
      (∀ s ∈ (p.exec sys.dev sys.dead m fs d).1.map (Step.mk c w₀), FailsOnly mf s ∧ adm s) →
      Along I.upd I.Good g ((p.exec sys.dev sys.dead m fs d).1.map (Step.mk c w₀)) ∧
        I.At (((p.exec sys.dev sys.dead m fs d).1.map (Step.mk c w₀)).foldl I.upd g)
          (p.exec sys.dev sys.dead m fs d).2
  | .done (b, m'), g, m, fs, d, hp, hin, hadm => by
      have h := I.ret (c := c) hin hp (hadm _ (List.mem_singleton.mpr rfl)).2
      simpa [Prog.exec, Along] using h
  | .call m' q k, g, m, fs, d, hp, hin, hadm => by
      obtain ⟨hR, hok, hfail⟩ := hp
      simp only [Prog.exec] at hadm ⊢
      -- the three answers of the device: go on with success, go on with failure, stop
      cases hf : fs.headD .ok with
      | ok =>
          simp only [hf, List.map_cons, List.forall_mem_cons] at hadm ⊢
          obtain ⟨hgood, hin'⟩ := I.live (f := .ok) hin hR hadm.1.2 (by simp) (by simp)
          obtain ⟨hal, hat⟩ := along_exec I (k true) hok hin' hadm.2
          exact ⟨⟨hgood, hal⟩, hat⟩
      | fail t =>
          simp only [hf, List.map_cons, List.forall_mem_cons] at hadm ⊢
          have hq : mf q := hadm.1.1
          obtain ⟨hgood, hin'⟩ := I.live (f := .fail t) hin hR hadm.1.2 (by simp) (fun _ _ => hq)
          obtain ⟨hal, hat⟩ := along_exec I (k false) (hfail hq t) hin' hadm.2
          exact ⟨⟨hgood, hal⟩, hat⟩
      | die t =>
          simp only [hf, List.map_cons, List.map_nil, List.forall_mem_cons] at hadm ⊢
          have h := I.die (t := t) hin hR hadm.1.2
          simpa [Along] using h

/-- **The run rule.** If every call of the system follows the micro-step relations, an invariant
that holds initially holds at every moment of every run whose errors stay within `mf` and whose
steps are all admissible. -/
theorem along_run (I : Invariant sys mf adm R E γ)
    (hfollows : ∀ c w, (sys.prog c w).Follows sys.dev mf (R c w) (E c w) w.mem w.disk) :
    ∀ (sched : List (κ × List (Fault τ))) {g : γ} {w : World μ δ}, I.At g w →
      (∀ s ∈ (sys.run sched w).1, FailsOnly mf s ∧ adm s) →
      Along I.upd I.Good g (sys.run sched w).1 ∧
        I.At ((sys.run sched w).1.foldl I.upd g) (sys.run sched w).2
  | [], g, w, hat, _ => ⟨trivial, hat⟩
  | (c, fs) :: rest, g, w, hat, hadm => by
      simp only [System.run, List.mem_append] at hadm ⊢
      obtain ⟨hal, hat'⟩ := I.along_exec (sys.prog c w) (hfollows c w) (I.enter hat)
        (fun s hs => hadm s (.inl hs))
      obtain ⟨hal', hat''⟩ := along_run I hfollows rest hat' (fun s hs => hadm s (.inr hs))
      refine ⟨along_append.mpr ⟨hal, hal'⟩, ?_⟩
      rw [List.foldl_append]
      exact hat''

end Invariant

end Rule

/-! ## §5 Finer devices. -/

section Maps

variable {κ μ ρ τ δ δ' α β : Type}

/-- `f` forgets what `dev'` keeps track of beyond `dev`. -/
structure Device.Maps (dev' : Device ρ τ δ') (dev : Device ρ τ δ) (f : δ' → δ) : Prop where
  complete : ∀ q d, f (dev'.complete q d) = dev.complete q (f d)
  tear : ∀ q t d, f (dev'.tear q t d) = dev.tear q t (f d)

theorem Device.Maps.after {dev' : Device ρ τ δ'} {dev : Device ρ τ δ} {f : δ' → δ}
    (hf : dev'.Maps dev f) (q : ρ) (d : δ') (a : Fault τ) : f (dev'.after q d a) = dev.after q (f d) a := by
  cases a with
  | ok => exact hf.complete q d
  | fail t => exact hf.tear q t d
  | die t => exact hf.tear q t d

/-- What a program does on the coarse device it does on the fine one. -/
theorem Prog.Follows.pull {dev' : Device ρ τ δ'} {dev : Device ρ τ δ} {f : δ' → δ} {mf : ρ → Prop}
    {R : μ → δ → μ → ρ → Prop} {E : μ → δ → α → Prop} (hf : dev'.Maps dev f) {p : Prog μ ρ α} {m : μ}
    {d : δ'} (h : p.Follows dev mf R E m (f d)) :
    p.Follows dev' mf (fun m d m' q => R m (f d) m' q) (fun m d a => E m (f d) a) m d := by
  induction p generalizing m d with
  | done a => exact h
  | call m' q k ih =>
      obtain ⟨hR, hok, hfail⟩ := h
      refine ⟨hR, ih _ ?_, fun hq t => ih _ ?_⟩
      · rw [hf.complete]
        exact hok
      · rw [hf.tear]
        exact hfail hq t

def World.map (f : δ' → δ) (w : World μ δ') : World μ δ := ⟨w.mem, f w.disk⟩

def Event.map (f : δ' → δ) : Event μ ρ τ δ' β → Event μ ρ τ δ β
  | .io m m' q a d => .io m m' q a (f d)
  | .ret m m' b d => .ret m m' b (f d)

def Step.map (f : δ' → δ) (s : Step κ μ ρ τ δ' β) : Step κ μ ρ τ δ β :=
  ⟨s.call, s.entry.map f, s.event.map f⟩

theorem Event.after_map {dev' : Device ρ τ δ'} {dev : Device ρ τ δ} {f : δ' → δ} (hf : dev'.Maps dev f) (dead : μ)
    (e : Event μ ρ τ δ' β) : (e.map f).after dev dead = (e.after dev' dead).map f := by
  cases e with
  | ret m m' b d => rfl
  | io m m' q a d =>
      cases a with
      | ok => exact congrArg (World.mk m') (hf.complete q d).symm
      | fail t => exact congrArg (World.mk m') (hf.tear q t d).symm
      | die t => exact congrArg (World.mk dead) (hf.tear q t d).symm

theorem Prog.exec_map {dev' : Device ρ τ δ'} {dev : Device ρ τ δ} {f : δ' → δ} (hf : dev'.Maps dev f)
    (dead : μ) (p : Prog μ ρ (β × μ)) (m : μ) (fs : List (Fault τ)) (d : δ') :
    p.exec dev dead m fs (f d) =
      ((p.exec dev' dead m fs d).1.map (Event.map f), (p.exec dev' dead m fs d).2.map f) := by
  induction p generalizing m fs d with
  | done a => rfl
  | call m' q k ih =>
      unfold Prog.exec
      cases fs.headD .ok with
      | ok =>
          simp only [← hf.complete, ih]
          rfl
      | fail t =>
          simp only [← hf.tear, ih]
          rfl
      | die t =>
          simp only [← hf.tear]
          rfl

/-- **Refinement.** The runs of a system on the fine device are its runs on the coarse one, with more
seen of the disk. -/
theorem System.run_map (sys' : System κ μ ρ τ δ' β) (sys : System κ μ ρ τ δ β) {f : δ' → δ}
    (hdev : sys'.dev.Maps sys.dev f) (hdead : sys'.dead = sys.dead)
    (hprog : ∀ c w, sys'.prog c w = sys.prog c (w.map f)) (sched : List (κ × List (Fault τ)))
    (w : World μ δ') :
    sys.run sched (w.map f) = ((sys'.run sched w).1.map (Step.map f), (sys'.run sched w).2.map f) := by
  induction sched generalizing w with
  | nil => rfl
  | cons head rest ih =>
      obtain ⟨c, fs⟩ := head
      set r := (sys'.prog c w).exec sys'.dev sys'.dead w.mem fs w.disk with hr
      have hcall : (sys.prog c (w.map f)).exec sys.dev sys.dead w.mem fs (f w.disk) =
          (r.1.map (Event.map f), r.2.map f) := by
        rw [hr, hprog, hdead]
        exact Prog.exec_map hdev sys.dead (sys.prog c (w.map f)) w.mem fs w.disk
      have hrun : sys.run ((c, fs) :: rest) (w.map f) =
          ((r.1.map (Event.map f)).map (Step.mk c (w.map f)) ++ (sys.run rest (r.2.map f)).1,
            (sys.run rest (r.2.map f)).2) := by
        show ((_ : List _) ++ _, _) = _
        rw [show (w.map f).mem = w.mem from rfl, show (w.map f).disk = f w.disk from rfl, hcall]
      have hrun' : sys'.run ((c, fs) :: rest) w =
          (r.1.map (Step.mk c w) ++ (sys'.run rest r.2).1, (sys'.run rest r.2).2) := rfl
      rw [hrun, hrun', ih]
      simp only [List.map_append, List.map_map]
      rfl

end Maps

end Edgewarden.FaultIo
