/-
# Edgewarden.Health.Watchdog — `Watchdog` of `edge-health/src/lib.rs`, with any number of tasks that pet it.

"A supervised task must call `pet()` at least every `timeout`, otherwise `is_expired()` returns true." The
assignment in `pet` evaluates its right side first: the clock is read BEFORE the write lock is taken. A task that
waits for the lock stores the time of its call, which may be older than what another task has stored since.

* §1 is the watchdog between the steps of its callers: a call reads the clock, gets the lock some time later and
  stores; a check reads the stored time and the clock under the read lock.
* `watchdog_verdict`: in every interleaving a watchdog that is not expired was called within the timeout, so a
  silence is never missed. A watchdog that is expired may be wrong about the calls that have returned, by as much
  as a call waits for the lock and by no more.
-/
import Edgewarden.Lib.Machine

namespace Edgewarden.Health

open Edgewarden.Calls

/-! ## §1 Calls and checks. -/

/-- The watchdog, the clock, and the times that calls of `pet` hold while they wait for the lock. -/
structure Watched (ι : Type) where
  now : Nat
  lastPet : Nat
  waiting : ι → Option Nat

inductive WatchEvent (ι : Type)
  | tick (duration : Nat)
  /-- A task calls `pet`: `Instant::now()`. -/
  | pet (t : ι)
  /-- Its call gets the lock, stores and returns. -/
  | store (t : ι)
  /-- Its call is dropped while it waits. -/
  | cancel (t : ι)
  | isExpired

section Steps

variable {ι : Type} [DecidableEq ι]

/-- An event, with what `is_expired` answers. A task is in one call at a time. -/
def Watched.step (timeout : Nat) (w : Watched ι) : WatchEvent ι → Option Bool × Watched ι
  | .tick duration => (none, { w with now := w.now + duration })
  | .pet t =>
      match w.waiting t with
      | some _ => (none, w)
      | none => (none, { w with waiting := Function.update w.waiting t (some w.now) })
  | .store t =>
      match w.waiting t with
      | some stamp => (none, { w with lastPet := stamp, waiting := Function.update w.waiting t none })
      | none => (none, w)
  | .cancel t => (none, { w with waiting := Function.update w.waiting t none })
  -- `elapsed() > timeout`
  | .isExpired => (some (decide (timeout < w.now - w.lastPet)), w)

/-- A watchdog that is made at time 0. -/
def watchdog (ι : Type) [DecidableEq ι] (timeout : Nat) : Machine (Watched ι) (WatchEvent ι) (Option Bool) where
  init := ⟨0, 0, fun _ => none⟩
  step := Watched.step timeout

/-- The watchdog was made, or `pet` was called, at time `x`. -/
def CalledAt (timeout : Nat) (events : List (WatchEvent ι)) (x : Nat) : Prop :=
  x = 0 ∨ ∃ before t, before ++ [.pet t] <+: events ∧ ((watchdog ι timeout).after before).now = x

/-- The watchdog was made, or a call of `pet` made at time `x` has returned. -/
def ReturnedFrom (timeout : Nat) (events : List (WatchEvent ι)) (x : Nat) : Prop :=
  x = 0 ∨ ∃ before t, before ++ [.store t] <+: events ∧ ((watchdog ι timeout).after before).waiting t = some x

/-- No call that gets the lock has waited for it longer than `wait`. -/
def LockedWithin (wait timeout : Nat) (events : List (WatchEvent ι)) : Prop :=
  ∀ before t x, before ++ [.store t] <+: events → ((watchdog ι timeout).after before).waiting t = some x →
    ((watchdog ι timeout).after before).now ≤ x + wait

end Steps

/-! ## §2 What is stored. -/

section Stored

variable {ι : Type} [DecidableEq ι] {wait timeout : Nat} {events : List (WatchEvent ι)} {x : Nat}

theorem CalledAt.later (h : CalledAt timeout events x) (e : WatchEvent ι) : CalledAt timeout (events ++ [e]) x :=
  h.imp_right fun ⟨before, t, hpre, hx⟩ => ⟨before, t, hpre.trans (List.prefix_append _ _), hx⟩

/-- What the last event adds to the calls that have returned. -/
theorem returnedFrom_snoc {e : WatchEvent ι} (h : ReturnedFrom timeout (events ++ [e]) x) :
    ReturnedFrom timeout events x ∨
      ∃ t, e = .store t ∧ ((watchdog ι timeout).after events).waiting t = some x := by
  rcases h with hzero | ⟨before, t, hpre, hx⟩
  · exact .inl (.inl hzero)
  · rcases List.prefix_concat_iff.mp hpre with heq | hold
    · obtain ⟨rfl, he⟩ := List.append_inj' heq rfl
      exact .inr ⟨t, (List.singleton_inj.mp he).symm, hx⟩
    · exact .inl (.inr ⟨before, t, hold, hx⟩)

/-- What a call holds after an event it held before, or the event was the call. -/
theorem waiting_step (timeout : Nat) (w : Watched ι) (e : WatchEvent ι) {t : ι}
    (h : (w.step timeout e).2.waiting t = some x) : w.waiting t = some x ∨ (e = .pet t ∧ x = w.now) := by
  cases e with
  | tick duration => exact .inl h
  | isExpired => exact .inl h
  | pet t' =>
      cases hwaiting : w.waiting t' with
      | some stamp =>
          simp only [Watched.step, hwaiting] at h
          exact .inl h
      | none =>
          simp only [Watched.step, hwaiting] at h
          by_cases ht : t = t'
          · subst ht
            rw [Function.update_self] at h
            exact .inr ⟨rfl, (Option.some.inj h).symm⟩
          · rw [Function.update_of_ne ht] at h
            exact .inl h
  | store t' =>
      cases hwaiting : w.waiting t' with
      | none =>
          simp only [Watched.step, hwaiting] at h
          exact .inl h
      | some stamp =>
          simp only [Watched.step, hwaiting] at h
          by_cases ht : t = t'
          · subst ht
            rw [Function.update_self] at h
            cases h
          · rw [Function.update_of_ne ht] at h
            exact .inl h
  | cancel t' =>
      simp only [Watched.step] at h
      by_cases ht : t = t'
      · subst ht
        rw [Function.update_self] at h
        cases h
      · rw [Function.update_of_ne ht] at h
        exact .inl h

/-- The stored time changes only to what a call holds that gets the lock. -/
theorem lastPet_step (timeout : Nat) (w : Watched ι) (e : WatchEvent ι) :
    (w.step timeout e).2.lastPet = w.lastPet ∧ (∀ t, e = .store t → w.waiting t = none) ∨
      ∃ t, e = .store t ∧ w.waiting t = some (w.step timeout e).2.lastPet := by
  cases e with
  | tick duration => exact .inl ⟨rfl, fun t h => by cases h⟩
  | isExpired => exact .inl ⟨rfl, fun t h => by cases h⟩
  | cancel t => exact .inl ⟨rfl, fun t h => by cases h⟩
  | pet t =>
      refine .inl ⟨?_, fun t h => by cases h⟩
      cases hwaiting : w.waiting t <;> simp only [Watched.step, hwaiting]
  | store t =>
      cases hwaiting : w.waiting t with
      | none =>
          simp only [Watched.step, hwaiting]
          exact .inl ⟨trivial, fun t' h => by cases h; exact hwaiting⟩
      | some stamp =>
          simp only [Watched.step, hwaiting]
          exact .inr ⟨t, rfl, hwaiting⟩

theorem now_step (timeout : Nat) (w : Watched ι) (e : WatchEvent ι) : w.now ≤ (w.step timeout e).2.now := by
  cases e with
  | tick duration => exact Nat.le_add_right _ _
  | isExpired => exact Nat.le_refl _
  | cancel t => exact Nat.le_refl _
  | pet t => cases hwaiting : w.waiting t <;> simp only [Watched.step, hwaiting] <;> exact Nat.le_refl _
  | store t => cases hwaiting : w.waiting t <;> simp only [Watched.step, hwaiting] <;> exact Nat.le_refl _

/-- Every time that is stored or held is the time of a call, and not in the future. -/
structure Stamped (timeout : Nat) (events : List (WatchEvent ι)) (w : Watched ι) : Prop where
  last : CalledAt timeout events w.lastPet
  waiting : ∀ t x, w.waiting t = some x → CalledAt timeout events x ∧ x ≤ w.now
  returned : ∀ x, ReturnedFrom timeout events x → x ≤ w.now

theorem stamped_after (timeout : Nat) (events : List (WatchEvent ι)) :
    Stamped timeout events ((watchdog ι timeout).after events) := by
  induction events using List.reverseRecOn with
  | nil =>
      refine ⟨.inl rfl, fun _ _ h => (by cases h), ?_⟩
      rintro x (rfl | ⟨before, t, hpre, _⟩)
      · exact Nat.zero_le _
      · simp at hpre
  | append_singleton events e ih =>
      rw [Machine.after_snoc]
      have hnow := now_step timeout ((watchdog ι timeout).after events) e
      refine ⟨?_, ?_, ?_⟩
      · rcases lastPet_step timeout ((watchdog ι timeout).after events) e with ⟨hsame, -⟩ | ⟨t, -, hstamp⟩
        · exact hsame ▸ ih.last.later e
        · exact (ih.waiting t _ hstamp).1.later e
      · intro t x hx
        rcases waiting_step timeout _ e hx with hold | ⟨rfl, rfl⟩
        · exact ⟨(ih.waiting t x hold).1.later e, Nat.le_trans (ih.waiting t x hold).2 hnow⟩
        · exact ⟨.inr ⟨events, t, List.prefix_rfl, rfl⟩, hnow⟩
      · intro x hx
        rcases returnedFrom_snoc hx with hold | ⟨t, -, hstamp⟩
        · exact Nat.le_trans (ih.returned x hold) hnow
        · exact Nat.le_trans (ih.waiting t x hstamp).2 hnow

/-- The stored time is behind the calls that have returned by no more than the wait for the lock. -/
theorem returned_le_lastPet (h : LockedWithin wait timeout events) (hx : ReturnedFrom timeout events x) :
    x ≤ ((watchdog ι timeout).after events).lastPet + wait := by
  induction events using List.reverseRecOn with
  | nil =>
      rcases hx with rfl | ⟨before, t, hpre, _⟩
      · exact Nat.zero_le _
      · simp at hpre
  | append_singleton events e ih =>
      have hbefore : LockedWithin wait timeout events :=
        fun before t x hpre => h before t x (hpre.trans (List.prefix_append _ _))
      rw [Machine.after_snoc]
      rcases lastPet_step timeout ((watchdog ι timeout).after events) e with ⟨hsame, hnone⟩ | ⟨t, rfl, hstamp⟩
      · rcases returnedFrom_snoc hx with hold | ⟨t, he, hstamp⟩
        · exact Nat.le_trans (ih hbefore hold) (Nat.add_le_add_right (Nat.le_of_eq hsame.symm) wait)
        · rw [hnone t he] at hstamp
          cases hstamp
      -- What had returned was called before now, and the call that stores has not waited long.
      · have hlocked := h events t _ List.prefix_rfl hstamp
        rcases returnedFrom_snoc hx with hold | ⟨t', he, hstamp'⟩
        · exact Nat.le_trans ((stamped_after timeout events).returned x hold) hlocked
        · cases he
          rw [hstamp] at hstamp'
          exact Nat.le_trans (Nat.le_of_eq (Option.some.inj hstamp').symm) (Nat.le_add_right _ wait)

end Stored

/-! ## §3 The verdict. -/

section Verdict

variable {ι : Type} [DecidableEq ι]

/-- **What `is_expired` says.** In every interleaving of the calls of any number of tasks:

* if it is not expired, `pet` was called, or the watchdog was made, within the timeout;
* if it is expired, and no call has waited for the lock longer than `wait`, every call that has returned was made
  longer ago than the timeout less `wait`. -/
theorem watchdog_verdict (wait timeout : Nat) (events : List (WatchEvent ι)) :
    let now := ((watchdog ι timeout).after events).now
    let expired := (watchdog ι timeout).answer events .isExpired
    (expired = some false → ∃ x, CalledAt timeout events x ∧ now ≤ x + timeout) ∧
      (expired = some true → LockedWithin wait timeout events →
        ∀ x, ReturnedFrom timeout events x → x + timeout < now + wait) := by
  intro now expired
  have hexpired : expired = some (decide (timeout < now - ((watchdog ι timeout).after events).lastPet)) := rfl
  refine ⟨?_, ?_⟩
  · intro hfalse
    rw [hexpired, Option.some.injEq, decide_eq_false_iff_not] at hfalse
    exact ⟨_, (stamped_after timeout events).last, by omega⟩
  · intro htrue hlocked x hx
    rw [hexpired, Option.some.injEq, decide_eq_true_eq] at htrue
    have hle := returned_le_lastPet hlocked hx
    omega

-- The bound is met: a call that waits for the lock for 5 hides one that has returned since, just now.
example :
    let events : List (WatchEvent Bool) := [.tick 1, .pet false, .tick 5, .pet true, .store true, .store false]
    (watchdog Bool 4).answer events .isExpired = some true ∧ ((watchdog Bool 4).after events).now = 6 ∧
      ((watchdog Bool 4).after (events.take 4)).waiting true = some 6 := by decide

end Verdict

end Edgewarden.Health
