/-
# Edgewarden.Lib.WriteBehind — many writers, one memory, one file behind it.

Each of any number of tasks changes a shared memory, later takes a copy of it, stages the copy at ONE
temporary place, and publishes whatever is staged there. The four steps of a task are atomic; the
tasks interleave in any way. So a task may publish a copy that another task staged, may find nothing
staged, and may stage or publish a copy that is older than what it replaces.

The rule of this module (`Run.settled`, `Run.promise_kept`): in a run in which no step replaces a copy
by an older one, the file is as new as the memory once every task is through, and at any time as new
as what a task that is through has seen. Nothing in this module is about a particular program.
-/
import Mathlib.Logic.Function.Basic
import Mathlib.Order.Defs.PartialOrder

namespace Edgewarden.WriteBehind

/-! ## §1 Tasks. -/

/-- Where a task stands. `seen` is the memory right after its own change. -/
inductive Phase (σ : Type)
  | idle
  | changed (seen : σ)
  | copied (seen copy : σ)
  | staged (seen copy : σ)
  | done (seen : Option σ)

def Phase.seen {σ : Type} : Phase σ → Option σ
  | .idle => none
  | .changed seen => some seen
  | .copied seen _ => some seen
  | .staged seen _ => some seen
  | .done seen => seen

structure State (σ ι : Type) where
  mem : σ
  tmp : Option σ
  file : σ
  phase : ι → Phase σ

section

variable {σ ι : Type} [DecidableEq ι]

def State.move (w : State σ ι) (t : ι) (p : Phase σ) : State σ ι :=
  { w with phase := Function.update w.phase t p }

/-- One step of task `t`, where `changes` says what a change of the memory can be. Replacing a copy is
allowed only by one that is not older. -/
inductive Step [Preorder σ] (changes : σ → σ → Prop) (w : State σ ι) : State σ ι → Prop
  | change (t : ι) (m : σ) : w.phase t = .idle → changes w.mem m →
      Step changes w ({ w with mem := m }.move t (.changed m))
  | skip (t : ι) : w.phase t = .idle → Step changes w (w.move t (.done none))
  | copy (t : ι) (seen : σ) : w.phase t = .changed seen →
      Step changes w (w.move t (.copied seen w.mem))
  | stage (t : ι) (seen c : σ) : w.phase t = .copied seen c → (∀ x, w.tmp = some x → x ≤ c) →
      Step changes w ({ w with tmp := some c }.move t (.staged seen c))
  | publish (t : ι) (seen c x : σ) : w.phase t = .staged seen c → w.tmp = some x → w.file ≤ x →
      Step changes w ({ w with file := x, tmp := none }.move t (.done (some seen)))
  | missing (t : ι) (seen c : σ) : w.phase t = .staged seen c → w.tmp = none →
      Step changes w (w.move t (.done (some seen)))

/-- Any number of steps. -/
inductive Run [Preorder σ] (changes : σ → σ → Prop) (w₀ : State σ ι) : State σ ι → Prop
  | refl : Run changes w₀ w₀
  | tail {w w' : State σ ι} : Run changes w₀ w → Step changes w w' → Run changes w₀ w'

@[simp] theorem State.move_mem (w : State σ ι) (t : ι) (p : Phase σ) : (w.move t p).mem = w.mem := rfl
@[simp] theorem State.move_tmp (w : State σ ι) (t : ι) (p : Phase σ) : (w.move t p).tmp = w.tmp := rfl
@[simp] theorem State.move_file (w : State σ ι) (t : ι) (p : Phase σ) : (w.move t p).file = w.file :=
  rfl

theorem State.move_same (w : State σ ι) (t : ι) (p : Phase σ) : (w.move t p).phase t = p := by
  show Function.update w.phase t p t = p
  rw [Function.update_self]

theorem State.move_other (w : State σ ι) {t u : ι} (p : Phase σ) (h : u ≠ t) :
    (w.move t p).phase u = w.phase u := by
  show Function.update w.phase t p u = w.phase u
  rw [Function.update_of_ne h]

/-! ## §2 Nothing that was seen is lost. -/

variable [Preorder σ] {changes : σ → σ → Prop}

/-- A copy is safe once it is staged or published, or something newer is. -/
def Safe (w : State σ ι) (c : σ) : Prop := (∃ x, w.tmp = some x ∧ c ≤ x) ∨ c ≤ w.file

/-- What is known of a task in each phase. -/
def Phase.Sound (w : State σ ι) : Phase σ → Prop
  | .idle => True
  | .changed seen => seen ≤ w.mem
  | .copied seen c => seen ≤ c
  | .staged seen c => seen ≤ c ∧ Safe w c
  | .done (some seen) => seen ≤ w.file
  | .done none => True

/-- What every step does to what the other tasks rely on. -/
structure Advances (w w' : State σ ι) : Prop where
  mem : w.mem ≤ w'.mem
  file : w.file ≤ w'.file
  safe : ∀ c, Safe w c → Safe w' c

omit [DecidableEq ι] in
theorem Phase.Sound.advance {w w' : State σ ι} (h : Advances w w') {p : Phase σ} (hp : p.Sound w) :
    p.Sound w' := by
  cases p with
  | idle => trivial
  | changed seen => exact le_trans hp h.mem
  | copied seen c => exact hp
  | staged seen c => exact ⟨hp.1, h.safe c hp.2⟩
  | done seen =>
      cases seen with
      | none => trivial
      | some seen => exact le_trans hp h.file

theorem Step.advances (hchanges : ∀ m m', changes m m' → m ≤ m') {w w' : State σ ι}
    (h : Step changes w w') : Advances w w' := by
  cases h with
  | change t m _ hm => exact ⟨hchanges _ _ hm, le_refl _, fun _ hc => hc⟩
  | skip t _ => exact ⟨le_refl _, le_refl _, fun _ hc => hc⟩
  | copy t seen _ => exact ⟨le_refl _, le_refl _, fun _ hc => hc⟩
  | stage t seen c _ hnew =>
      refine ⟨le_refl _, le_refl _, ?_⟩
      rintro d (⟨x, hx, hd⟩ | hd)
      · exact .inl ⟨c, rfl, le_trans hd (hnew x hx)⟩
      · exact .inr hd
  | publish t seen c x _ hx hnew =>
      refine ⟨le_refl _, hnew, ?_⟩
      rintro d (⟨y, hy, hd⟩ | hd)
      · -- what was staged is what is now in the file
        have hyx : y = x := Option.some.inj (hy.symm.trans hx)
        exact .inr (hyx ▸ hd)
      · exact .inr (le_trans hd hnew)
  | missing t seen c _ _ => exact ⟨le_refl _, le_refl _, fun _ hc => hc⟩

omit [DecidableEq ι] in
/-- A task that is about to publish finds its copy, or a newer one, in the file afterwards. -/
theorem Safe.published {w : State σ ι} {c x : σ} (h : Safe w c) (hx : w.tmp = some x)
    (hnew : w.file ≤ x) : c ≤ x := by
  rcases h with ⟨y, hy, hcy⟩ | hc
  · exact Option.some.inj (hy.symm.trans hx) ▸ hcy
  · exact le_trans hc hnew

omit [DecidableEq ι] in
theorem Safe.of_missing {w : State σ ι} {c : σ} (h : Safe w c) (htmp : w.tmp = none) :
    c ≤ w.file := by
  rcases h with ⟨y, hy, _⟩ | hc
  · cases hy.symm.trans htmp
  · exact hc

theorem Step.sound (hchanges : ∀ m m', changes m m' → m ≤ m') {w w' : State σ ι}
    (h : Step changes w w') (hs : ∀ t, (w.phase t).Sound w) : ∀ t, (w'.phase t).Sound w' := by
  have hadv := h.advances hchanges
  -- the other tasks only need what `Advances` gives; the moving task is checked phase by phase
  have hmove : ∀ {v : State σ ι} {t : ι} {p : Phase σ}, w' = v.move t p → v.phase = w.phase →
      p.Sound w' → ∀ u, (w'.phase u).Sound w' := by
    rintro v t p rfl hphase hp u
    by_cases hu : u = t
    · rw [hu, State.move_same]
      exact hp
    · rw [State.move_other v p hu, hphase]
      exact (hs u).advance hadv
  cases h with
  | change t m _ hm => exact hmove rfl rfl (le_refl m)
  | skip t _ => exact hmove rfl rfl trivial
  | copy t seen ht =>
      have hold := hs t
      rw [ht] at hold
      exact hmove rfl rfl hold
  | stage t seen c ht _ =>
      have hold := hs t
      rw [ht] at hold
      exact hmove rfl rfl ⟨hold, .inl ⟨c, rfl, le_refl c⟩⟩
  | publish t seen c x ht hx hnew =>
      have hold := hs t
      rw [ht] at hold
      exact hmove rfl rfl (le_trans hold.1 (hold.2.published hx hnew))
  | missing t seen c ht hx =>
      have hold := hs t
      rw [ht] at hold
      exact hmove rfl rfl (le_trans hold.1 (hold.2.of_missing hx))

/-- What is in the file, or what some task has seen, is as new as the memory: the last task that
changed it has seen all of it. -/
def Covered (w : State σ ι) : Prop :=
  w.mem ≤ w.file ∨ ∃ t m, (w.phase t).seen = some m ∧ w.mem ≤ m

/-- A step that keeps the memory keeps what was seen. -/
theorem Covered.keep {w v : State σ ι} {t : ι} {p : Phase σ} (hc : Covered w)
    (hphase : v.phase = w.phase) (hmem : v.mem = w.mem) (hfile : w.file ≤ v.file)
    (hseen : ∀ m, (w.phase t).seen = some m → p.seen = some m) : Covered (v.move t p) := by
  rcases hc with hfile' | ⟨u, m, hu, hle⟩
  · refine .inl ?_
    rw [State.move_mem, State.move_file, hmem]
    exact le_trans hfile' hfile
  · refine .inr ⟨u, m, ?_, ?_⟩
    · by_cases hut : u = t
      · rw [hut, State.move_same]
        exact hseen m (hut ▸ hu)
      · rw [State.move_other v p hut, hphase]
        exact hu
    · rw [State.move_mem, hmem]
      exact hle

theorem Step.covered {w w' : State σ ι} (h : Step changes w w') (hc : Covered w) : Covered w' := by
  cases h with
  | change t m _ _ =>
      refine .inr ⟨t, m, ?_, le_refl m⟩
      rw [State.move_same]
      rfl
  | skip t ht =>
      refine hc.keep rfl rfl (le_refl _) ?_
      intro m hm
      rw [ht] at hm
      cases hm
  | copy t seen ht => exact hc.keep rfl rfl (le_refl _) fun m hm => by rw [ht] at hm; exact hm
  | stage t seen c ht _ => exact hc.keep rfl rfl (le_refl _) fun m hm => by rw [ht] at hm; exact hm
  | publish t seen c x ht _ hnew => exact hc.keep rfl rfl hnew fun m hm => by rw [ht] at hm; exact hm
  | missing t seen c ht _ => exact hc.keep rfl rfl (le_refl _) fun m hm => by rw [ht] at hm; exact hm

/-! ## §3 Runs. -/

/-- Every task is before its first step, and the file is up to date. -/
structure Initial (w : State σ ι) : Prop where
  idle : ∀ t, w.phase t = .idle
  tmp : w.tmp = none
  file : w.file = w.mem

theorem Run.inv (hchanges : ∀ m m', changes m m' → m ≤ m') {w₀ w : State σ ι} (h₀ : Initial w₀)
    (h : Run changes w₀ w) : (∀ t, (w.phase t).Sound w) ∧ Covered w := by
  induction h with
  | refl =>
      refine ⟨fun t => ?_, .inl (le_of_eq h₀.file.symm)⟩
      rw [h₀.idle t]
      trivial
  | tail _ hstep ih => exact ⟨hstep.sound hchanges ih.1, hstep.covered ih.2⟩

/-- **What a finished task has seen is in the file**, or something newer is. -/
theorem Run.promise_kept (hchanges : ∀ m m', changes m m' → m ≤ m') {w₀ w : State σ ι}
    (h₀ : Initial w₀) (h : Run changes w₀ w) {t : ι} {m : σ} (ht : w.phase t = .done (some m)) :
    m ≤ w.file := by
  have hs := (h.inv hchanges h₀).1 t
  rw [ht] at hs
  exact hs

/-- **Once every task is through, the file is as new as the memory.** -/
theorem Run.settled (hchanges : ∀ m m', changes m m' → m ≤ m') {w₀ w : State σ ι}
    (h₀ : Initial w₀) (h : Run changes w₀ w) (hdone : ∀ t, ∃ m, w.phase t = .done m) :
    w.mem ≤ w.file := by
  rcases (h.inv hchanges h₀).2 with hfile | ⟨t, m, hseen, hle⟩
  · exact hfile
  · obtain ⟨seen, ht⟩ := hdone t
    rw [ht] at hseen
    have hseen' : seen = some m := hseen
    exact le_trans hle (h.promise_kept hchanges h₀ (hseen' ▸ ht))

/-! ## §4 Every copy was once the memory. -/

/-- Every copy that is around stands in a relation to the memory. -/
structure Inherits (R : σ → σ → Prop) (w : State σ ι) : Prop where
  copied : ∀ t seen c, w.phase t = .copied seen c → R c w.mem
  tmp : ∀ x, w.tmp = some x → R x w.mem
  file : R w.file w.mem

theorem Step.inherits {R : σ → σ → Prop} (hrefl : ∀ m, R m m)
    (hstable : ∀ c m m', R c m → changes m m' → R c m') {w w' : State σ ι} (h : Step changes w w')
    (hi : Inherits R w) : Inherits R w' := by
  -- the moving task brings a copy along only when it takes one
  have hmove : ∀ {v : State σ ι} {t : ι} {p : Phase σ}, w' = v.move t p → v.phase = w.phase →
      (∀ c, R c w.mem → R c v.mem) → (∀ seen c, p = .copied seen c → R c v.mem) →
      ∀ u seen c, w'.phase u = .copied seen c → R c w'.mem := by
    rintro v t p rfl hphase hmem hp u seen c hu
    by_cases hut : u = t
    · rw [hut, State.move_same] at hu
      exact hp seen c hu
    · rw [State.move_other v p hut, hphase] at hu
      exact hmem c (hi.copied u seen c hu)
  cases h with
  | change t m _ hm =>
      have hmem : ∀ c, R c w.mem → R c m := fun c hc => hstable c w.mem m hc hm
      exact ⟨hmove rfl rfl hmem nofun, fun x hx => hmem x (hi.tmp x hx), hmem _ hi.file⟩
  | skip t _ => exact ⟨hmove rfl rfl (fun _ h => h) nofun, hi.tmp, hi.file⟩
  | copy t seen _ =>
      refine ⟨hmove rfl rfl (fun _ h => h) ?_, hi.tmp, hi.file⟩
      intro seen' c hc
      cases hc
      exact hrefl w.mem
  | stage t seen c ht _ =>
      refine ⟨hmove rfl rfl (fun _ h => h) nofun, ?_, hi.file⟩
      intro x hx
      cases hx
      exact hi.copied t seen c ht
  | publish t seen c x _ hx _ => exact ⟨hmove rfl rfl (fun _ h => h) nofun, nofun, hi.tmp x hx⟩
  | missing t seen c _ _ => exact ⟨hmove rfl rfl (fun _ h => h) nofun, hi.tmp, hi.file⟩

theorem Run.inherits {R : σ → σ → Prop} (hrefl : ∀ m, R m m)
    (hstable : ∀ c m m', R c m → changes m m' → R c m') {w₀ w : State σ ι} (h₀ : Initial w₀)
    (h : Run changes w₀ w) : Inherits R w := by
  induction h with
  | refl =>
      refine ⟨fun t seen c ht => ?_, fun x hx => ?_, h₀.file ▸ hrefl _⟩
      · cases (h₀.idle t).symm.trans ht
      · cases h₀.tmp.symm.trans hx
  | tail _ hstep ih => exact hstep.inherits hrefl hstable ih

end

end Edgewarden.WriteBehind
