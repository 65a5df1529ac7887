/-
# Edgewarden.Lib.Method — methods of an object whose fields live in memory and whose files do not.

A `Method` reads and assigns the fields, issues I/O requests with the fields as they stand, and may
return early with an error; the assignments made before the error stay. This is `&mut self` with `?`.

* `method_bind` and `method_request` are the rules of `Prog.Follows` for methods, `method_ends_bind` and
  `method_ends_requestOr` those of `Prog.Ends`, `method_aborts_bind` and `method_aborts_requestOr` those of
  `Prog.Aborts`.
* `MethodAlways` is what all ends of a method have in common, whatever it requests and is answered.
* `Method.quiet` is a method all of whose requests complete.

Nothing in this module is about a particular program.
-/
import Edgewarden.Lib.FaultIo

namespace Edgewarden.FaultIo

/-- The contents of a file: the record written to it, or bytes that decode to nothing. -/
inductive Contents (α : Type)
  | whole (a : α)
  | garbled
  deriving DecidableEq, Repr

variable {ε σ ρ τ δ α β : Type}

/-- A method of an object with fields `σ`. -/
abbrev Method (ε σ ρ : Type) := ExceptT ε (StateT σ (Prog (Option σ) ρ))

theorem Method.run_bind (x : Method ε σ ρ α) (f : α → Method ε σ ρ β) (m : σ) :
    (x >>= f).run.run m = x.run.run m >>= fun r =>
      match r.1 with
      | .ok a => (f a).run.run r.2
      | .error e => Prog.done (.error e, r.2) := by
  change Prog.bind _ _ = Prog.bind _ _
  congr 1
  funext r
  obtain ⟨r, m'⟩ := r
  cases r <;> rfl

/-- Issue a request with the fields as they stand. -/
def request (q : ρ) : Method ε σ ρ Bool :=
  fun m => Prog.call (some m) q fun b => Prog.done (.ok b, m)

/-- `...?` on a request. -/
def requestOr (e : ε) (q : ρ) : Method ε σ ρ Unit := do
  unless ← request q do throw e

/-- The result of a method as a value: an error is looked at, or not, and nothing returns early. -/
def Method.observed (x : Method ε σ ρ α) : Method ε σ ρ (Except ε α) :=
  fun m => x.run.run m >>= fun r => Prog.done (.ok r.1, r.2)

theorem Method.observed_bind (x : Method ε σ ρ α) (f : Except ε α → Method ε σ ρ β) (m : σ) :
    (x.observed >>= f).run.run m = x.run.run m >>= fun r => (f r.1).run.run r.2 := by
  rw [Method.run_bind]
  show ((x.run.run m >>= fun r => Prog.done (Except.ok r.1, r.2)) >>= _) = _
  rw [Prog.bind_assoc]
  rfl

/-! ## §1 What a method may do. -/

section Rules

variable {dev : Device ρ τ δ} {mf : ρ → Prop} {R : Option σ → δ → Option σ → ρ → Prop}

/-- The obligation of a method run on the fields `m`, after a moment with memory `prev`. -/
abbrev MethodFollows (dev : Device ρ τ δ) (mf : ρ → Prop) (R : Option σ → δ → Option σ → ρ → Prop)
    (x : Method ε σ ρ α) (E : Option σ → δ → Except ε α × σ → Prop) (m : σ) (prev : Option σ)
    (d : δ) : Prop :=
  (x.run.run m).Follows dev mf R E prev d

variable {m : σ} {prev : Option σ} {d : δ}

/-- Sequencing of methods: an early return skips the rest. -/
theorem method_bind {E : Option σ → δ → Except ε β × σ → Prop} {x : Method ε σ ρ α}
    {f : α → Method ε σ ρ β}
    (h : MethodFollows dev mf R x (fun p d' r =>
      match r.1 with
      | .ok a => MethodFollows dev mf R (f a) E r.2 p d'
      | .error e => E p d' (.error e, r.2)) m prev d) :
    MethodFollows dev mf R (x >>= f) E m prev d := by
  unfold MethodFollows
  rw [Method.run_bind, Prog.follows_bind]
  refine Prog.Follows.mono h ?_
  rintro p d' ⟨r, m'⟩ hr
  cases r with
  | ok a => exact hr
  | error e => exact hr

/-- Reading the fields. -/
theorem method_get {E : Option σ → δ → Except ε β × σ → Prop} {f : σ → Method ε σ ρ β}
    (h : MethodFollows dev mf R (f m) E m prev d) : MethodFollows dev mf R (get >>= f) E m prev d :=
  method_bind (x := get) h

theorem method_request {q : ρ} {E : Option σ → δ → Except ε Bool × σ → Prop}
    (hR : R prev d (some m) q) (hok : E (some m) (dev.complete q d) (.ok true, m))
    (hfail : mf q → ∀ t, E (some m) (dev.tear q t d) (.ok false, m)) :
    MethodFollows dev mf R (request q) E m prev d :=
  ⟨hR, hok, hfail⟩

theorem method_requestOr {e : ε} {q : ρ} {E : Option σ → δ → Except ε Unit × σ → Prop}
    (hR : R prev d (some m) q) (hok : E (some m) (dev.complete q d) (.ok (), m))
    (hfail : mf q → ∀ t, E (some m) (dev.tear q t d) (.error e, m)) :
    MethodFollows dev mf R (requestOr e q) E m prev d :=
  method_bind (method_request hR hok hfail)

end Rules

section Ends

variable {dev : Device ρ τ δ} {D : δ → Prop} {m : σ} {fs : List (Fault τ)} {d : δ}

/-- How a method run on the fields `m` ends under a list of faults. -/
abbrev MethodEnds (dev : Device ρ τ δ) (D : δ → Prop) (x : Method ε σ ρ α)
    (E : List (Fault τ) → δ → Except ε α × σ → Prop) (m : σ) (fs : List (Fault τ)) (d : δ) : Prop :=
  (x.run.run m).Ends dev D E fs d

theorem method_ends_bind {E : List (Fault τ) → δ → Except ε β × σ → Prop} {x : Method ε σ ρ α}
    {f : α → Method ε σ ρ β}
    (h : MethodEnds dev D x (fun fs' d' r =>
      match r.1 with
      | .ok a => MethodEnds dev D (f a) E r.2 fs' d'
      | .error e => E fs' d' (.error e, r.2)) m fs d) :
    MethodEnds dev D (x >>= f) E m fs d := by
  unfold MethodEnds
  rw [Method.run_bind, Prog.ends_bind]
  refine Prog.Ends.mono h ?_
  rintro fs' d' ⟨r, m'⟩ hr
  cases r with
  | ok a => exact hr
  | error e => exact hr

theorem method_ends_get {E : List (Fault τ) → δ → Except ε β × σ → Prop} {f : σ → Method ε σ ρ β}
    (h : MethodEnds dev D (f m) E m fs d) : MethodEnds dev D (get >>= f) E m fs d :=
  method_ends_bind (x := get) h

theorem method_ends_requestOr {e : ε} {q : ρ} {E : List (Fault τ) → δ → Except ε Unit × σ → Prop}
    (hok : fs.headD .ok = .ok → E fs.tail (dev.complete q d) (.ok (), m))
    (hfail : ∀ t, fs.headD .ok = .fail t → E fs.tail (dev.tear q t d) (.error e, m))
    (hdie : ∀ t, fs.headD .ok = .die t → D (dev.tear q t d)) :
    MethodEnds dev D (requestOr e q) E m fs d := by
  refine method_ends_bind ?_
  show (Prog.call (some m) q fun b => Prog.done (Except.ok b, m)).Ends dev D _ fs d
  unfold Prog.Ends
  cases hf : fs.headD .ok with
  | ok => exact hok hf
  | fail t => exact hfail t hf
  | die t => exact hdie t hf

end Ends

section Aborts

variable {dev : Device ρ τ δ} {fatal : ρ → Prop} {m : σ} {d : δ}

/-- The ends of a method run on the fields `m` that returns at once when a `fatal` request fails. -/
abbrev MethodAborts (dev : Device ρ τ δ) (fatal : ρ → Prop) (x : Method ε σ ρ α)
    (E X : δ → Except ε α × σ → Prop) (m : σ) (d : δ) : Prop :=
  (x.run.run m).Aborts dev fatal E X d

theorem method_aborts_bind {E X : δ → Except ε β × σ → Prop} {x : Method ε σ ρ α}
    {f : α → Method ε σ ρ β}
    (h : MethodAborts dev fatal x
      (fun d' r =>
        match r.1 with
        | .ok a => MethodAborts dev fatal (f a) E X r.2 d'
        | .error e => E d' (.error e, r.2))
      (fun d' r => ∃ e, r.1 = .error e ∧ X d' (.error e, r.2)) m d) :
    MethodAborts dev fatal (x >>= f) E X m d := by
  unfold MethodAborts
  rw [Method.run_bind]
  refine Prog.aborts_bind (Prog.Aborts.mono h ?_ ?_)
  · rintro d' ⟨r, m'⟩ hr
    cases r with
    | ok a => exact hr
    | error e => exact hr
  · rintro d' ⟨r, m'⟩ ⟨e, rfl, hX⟩
    exact ⟨_, rfl, hX⟩

theorem method_aborts_get {E X : δ → Except ε β × σ → Prop} {f : σ → Method ε σ ρ β}
    (h : MethodAborts dev fatal (f m) E X m d) : MethodAborts dev fatal (get >>= f) E X m d :=
  method_aborts_bind (x := get) h

/-- A request whose answer is not looked at. -/
theorem method_aborts_request {q : ρ} {E X : δ → Except ε Bool × σ → Prop} (hq : ¬ fatal q)
    (hok : E (dev.complete q d) (.ok true, m)) (hfail : ∀ t, E (dev.tear q t d) (.ok false, m)) :
    MethodAborts dev fatal (request q) E X m d :=
  ⟨hok, fun _ => hfail, fun h => absurd h hq⟩

theorem method_aborts_requestOr {e : ε} {q : ρ} {E X : δ → Except ε Unit × σ → Prop}
    (hok : E (dev.complete q d) (.ok (), m))
    (hfail : ¬ fatal q → ∀ t, E (dev.tear q t d) (.error e, m))
    (hfatal : fatal q → ∀ t, X (dev.tear q t d) (.error e, m)) :
    MethodAborts dev fatal (requestOr e q) E X m d :=
  ⟨hok, hfail, fun hq t => ⟨_, rfl, hfatal hq t⟩⟩

end Aborts

section Always

variable {dev : Device ρ τ δ} {m : σ} {d : δ}

/-- Every end of a method run on the fields `m` obeys `E`, whatever its requests are answered. -/
def MethodAlways (dev : Device ρ τ δ) (x : Method ε σ ρ α) (E : δ → Except ε α × σ → Prop) (m : σ) (d : δ) :
    Prop :=
  ∀ prev, MethodFollows dev (fun _ => True) (fun _ _ _ _ => True) x (fun _ d' r => E d' r) m prev d

theorem method_always_bind {E : δ → Except ε β × σ → Prop} {x : Method ε σ ρ α} {f : α → Method ε σ ρ β}
    (h : MethodAlways dev x (fun d' r =>
      match r.1 with
      | .ok a => MethodAlways dev (f a) E r.2 d'
      | .error e => E d' (.error e, r.2)) m d) :
    MethodAlways dev (x >>= f) E m d := by
  intro prev
  refine method_bind (Prog.Follows.mono (h prev) ?_)
  rintro p d' ⟨r, m'⟩ hr
  cases r with
  | ok a => exact hr p
  | error e => exact hr

theorem method_always_get {E : δ → Except ε β × σ → Prop} {f : σ → Method ε σ ρ β}
    (h : MethodAlways dev (f m) E m d) : MethodAlways dev (get >>= f) E m d :=
  method_always_bind (x := get) fun _ => h

/-- A method that begins with a check of its fields. -/
theorem method_always_guard {E : δ → Except ε β × σ → Prop} {c : σ → Prop} [DecidablePred c]
    {x f : σ → Method ε σ ρ β} (hstop : c m → MethodAlways dev (x m) E m d)
    (hgo : ¬ c m → MethodAlways dev (f m) E m d) :
    MethodAlways dev (get >>= fun m => if c m then x m else f m) E m d := by
  refine method_always_get ?_
  split
  case isTrue hc => exact hstop hc
  case isFalse hc => exact hgo hc

theorem method_always_modify {E : δ → Except ε β × σ → Prop} {g : σ → σ} {f : PUnit → Method ε σ ρ β}
    (h : MethodAlways dev (f ⟨⟩) E (g m) d) : MethodAlways dev (modify g >>= f) E m d :=
  method_always_bind (x := modify g) fun _ => h

/-- A request whose answer is not looked at. -/
theorem method_always_request {E : δ → Except ε β × σ → Prop} {q : ρ} {x : Method ε σ ρ β}
    (h : ∀ f, MethodAlways dev x E m (dev.after q d f)) :
    MethodAlways dev (do let _ ← request q; x) E m d :=
  method_always_bind (x := request q) fun _ => ⟨trivial, h .ok, fun _ t => h (.fail t)⟩

theorem method_always_requestOr {E : δ → Except ε β × σ → Prop} {q : ρ} {e : ε} {f : Unit → Method ε σ ρ β}
    (hok : MethodAlways dev (f ()) E m (dev.complete q d))
    (hfail : ∀ t, E (dev.tear q t d) (.error e, m)) :
    MethodAlways dev (requestOr e q >>= f) E m d :=
  method_always_bind (x := requestOr e q) fun _ => method_requestOr trivial hok fun _ t => hfail t

end Always

/-! ## §2 Quiet runs. -/

/-- The result, the fields and the disk after a method all of whose requests complete. -/
def Method.quiet (dev : Device ρ τ δ) (x : Method ε σ ρ α) (m : σ) (d : δ) : (Except ε α × σ) × δ :=
  (x.run.run m).quiet dev d

theorem Method.quiet_bind_ok {dev : Device ρ τ δ} {x : Method ε σ ρ α} {f : α → Method ε σ ρ β}
    {a : α} {m m' : σ} {d d' : δ} (h : x.quiet dev m d = ((.ok a, m'), d')) :
    (x >>= f).quiet dev m d = (f a).quiet dev m' d' := by
  unfold Method.quiet at h ⊢
  rw [Method.run_bind, Prog.quiet_bind, h]

theorem Method.quiet_get {dev : Device ρ τ δ} {f : σ → Method ε σ ρ β} {m : σ} {d : δ} :
    (get >>= f).quiet dev m d = (f m).quiet dev m d :=
  Method.quiet_bind_ok rfl

theorem Method.quiet_observed {dev : Device ρ τ δ} {x : Method ε σ ρ α} {r : Except ε α} {m m' : σ} {d d' : δ}
    (h : x.quiet dev m d = ((r, m'), d')) : x.observed.quiet dev m d = ((.ok r, m'), d') := by
  have hrun : x.observed.quiet dev m d = (x.run.run m >>= fun r => Prog.done (.ok r.1, r.2)).quiet dev d := rfl
  unfold Method.quiet at h
  rw [hrun, Prog.quiet_bind, h]
  rfl

end Edgewarden.FaultIo
