/-
# Edgewarden.Registry.History — a seq names one desired state.

An edge drops every message at or below its `applied_seq`, so a seq must not be used twice for
different contents. Two calls raise it, and both return early when they have nothing to change.

* §1 adds the calls that only read the desired state to the interleavings of `Registry.Concurrent`: a
  heartbeat and `current_policy` are one critical section each and can come between any two steps of
  the calls that persist.
* §2 orders the registries of a run: `Since r r'` says that `r'` can come after `r`. It is the history
  invariant; every fact about two answers goes through it.
* `seq_names_desired_state` is the result over all interleavings.
-/
import Edgewarden.Registry.Concurrent

namespace Edgewarden.Registry

open Edgewarden.State

/-! ## §1 Interleavings with readers. -/

/-- What can happen next in a registry process. -/
inductive Activity (ι : Type)
  /-- A call that persists takes its next step. -/
  | advance (t : ι)
  | heartbeat (now : UInt64) (u : HeartbeatUpdate)
  | currentPolicy
  deriving DecidableEq

section

variable {ι : Type} [DecidableEq ι]

def Shared.act (w : Shared ι) : Activity ι → Shared ι
  | .advance t => w.step t
  | .heartbeat now u => { w with inner := (w.inner.heartbeatUpdate now u).2 }
  | .currentPolicy => w

/-- The process after the activities of a list, in its order. -/
def Shared.after (w : Shared ι) (acts : List (Activity ι)) : Shared ι := acts.foldl Shared.act w

omit [DecidableEq ι] in
/-- The answer of a heartbeat. -/
def Shared.answer (w : Shared ι) : Activity ι → Option HeartbeatReply
  | .heartbeat now u => (w.inner.heartbeatUpdate now u).1
  | _ => none

/-- The answers of all heartbeats, in the order in which they are given. -/
def Shared.answers (w : Shared ι) : List (Activity ι) → List HeartbeatReply
  | [] => []
  | a :: acts => (w.answer a).toList ++ (w.act a).answers acts

theorem Shared.after_append (w : Shared ι) (xs ys : List (Activity ι)) :
    w.after (xs ++ ys) = (w.after xs).after ys := by
  unfold Shared.after
  rw [List.foldl_append]

end

/-- What a heartbeat is told about registry `r`. -/
def Inner.served (r : Inner) : HeartbeatReply := ⟨r.policyVersion, r.policy, r.desiredSoftware, r.policySeq⟩

theorem heartbeatUpdate_answer {r : Inner} {now : UInt64} {u : HeartbeatUpdate} {reply : HeartbeatReply}
    (h : (r.heartbeatUpdate now u).1 = some reply) : reply = r.served := by
  unfold Inner.heartbeatUpdate at h
  cases hl : r.devices.lookup u.deviceId with
  | none =>
      rw [hl] at h
      cases h
  | some d =>
      rw [hl] at h
      exact (Option.some.inj h).symm

/-! ## §2 What comes after what. -/

/-- The version of the current policy; no policy is different from every version. -/
def Inner.currentVersion (r : Inner) : Option UInt64 := r.policy.map fun p => p.version

/-- The two registries want different things. -/
def Inner.Differs (r r' : Inner) : Prop :=
  r'.currentVersion ≠ r.currentVersion ∨ r'.desiredSoftware ≠ r.desiredSoftware

instance (r r' : Inner) : Decidable (r.Differs r') := inferInstanceAs (Decidable (_ ∨ _))

theorem Inner.differs_irrefl (r : Inner) : ¬ r.Differs r := by
  rintro (h | h)
  · exact h rfl
  · exact h rfl

/-- `r'` can come after `r`: its seq is not smaller, and the same seq means the same contents. -/
structure Since (r r' : Inner) : Prop where
  le : r.policySeq ≤ r'.policySeq
  same : r.policySeq = r'.policySeq → r'.policy = r.policy ∧ r'.desiredSoftware = r.desiredSoftware

theorem Since.refl (r : Inner) : Since r r := ⟨Nat.le_refl _, fun _ => ⟨rfl, rfl⟩⟩

theorem Since.trans {a b c : Inner} (hab : Since a b) (hbc : Since b c) : Since a c := by
  have hle₁ := hab.le
  have hle₂ := hbc.le
  refine ⟨by omega, ?_⟩
  intro heq
  obtain ⟨hp₁, hs₁⟩ := hab.same (by omega)
  obtain ⟨hp₂, hs₂⟩ := hbc.same (by omega)
  exact ⟨hp₂.trans hp₁, hs₂.trans hs₁⟩

/-- The same seq is answered in the same way. -/
theorem Since.served_eq {r r' : Inner} (h : Since r r') (heq : r.policySeq = r'.policySeq) :
    r'.served = r.served := by
  obtain ⟨hpolicy, hsoft⟩ := h.same heq
  unfold Inner.served Inner.policyVersion
  rw [hpolicy, hsoft, heq]

/-- One critical section: the contents change together with the seq, or neither does. -/
structure Ticks (r r' : Inner) : Prop where
  since : Since r r'
  seq : r'.policySeq = r.policySeq + if r.Differs r' then 1 else 0

theorem Ticks.of_same {r r' : Inner} (hp : r'.policy = r.policy) (hq : r'.policySeq = r.policySeq)
    (hs : r'.desiredSoftware = r.desiredSoftware) : Ticks r r' := by
  have hsame : ¬ r.Differs r' := by
    unfold Inner.Differs Inner.currentVersion
    rw [hp, hs]
    exact r.differs_irrefl
  refine ⟨⟨Nat.le_of_eq hq.symm, fun _ => ⟨hp, hs⟩⟩, ?_⟩
  rw [if_neg hsame, hq, Nat.add_zero]

theorem Ticks.of_next {r r' : Inner} (hdiff : r.Differs r') (hq : r'.policySeq = r.policySeq + 1) :
    Ticks r r' := by
  refine ⟨⟨by omega, fun heq => by omega⟩, ?_⟩
  rw [if_pos hdiff, hq]

theorem Op.ticks (op : Op) (r : Inner) : Ticks r (op.apply r).2 := by
  have heff := op.effect r
  generalize op.apply r = result at heff
  cases heff with
  | kept _ => exact .of_same rfl rfl rfl
  | registered now args => exact .of_same rfl rfl rfl
  | refreshed now u d _ => exact .of_same rfl rfl rfl
  | policy p hne => exact .of_next (.inl fun heq => hne heq.symm) rfl
  | software version hne => exact .of_next (.inr fun heq => hne heq.symm) rfl

/-! ## §3 Steps and runs. -/

/-- The steps of a call after its critical section do not touch the registry. -/
theorem Shared.step_inner {ι : Type} [DecidableEq ι] (w : Shared ι) (t : ι) :
    (w.step t).inner = w.inner ∨ ∃ op : Op, (w.step t).inner = (op.apply w.inner).2 := by
  unfold Shared.step
  cases w.calls t with
  | waiting call =>
      by_cases hchanged : (call.op.apply w.inner).1 = true
      · simp only [if_pos hchanged]
        exact .inr ⟨call.op, rfl⟩
      · simp only [if_neg hchanged]
        exact .inl rfl
  | mutated reply => exact .inl rfl
  | snapshotted reply snap => exact .inl rfl
  | written reply snap =>
      cases w.tmp with
      | some bytes => exact .inl rfl
      | none => exact .inl rfl
  | returned reply => exact .inl rfl
  | unchanged reply => exact .inl rfl

section

variable {ι : Type} [DecidableEq ι]

theorem Shared.act_ticks (w : Shared ι) (a : Activity ι) : Ticks w.inner (w.act a).inner := by
  cases a with
  | advance t =>
      show Ticks w.inner (w.step t).inner
      rcases w.step_inner t with hsame | ⟨op, hop⟩
      · rw [hsame]
        exact .of_same rfl rfl rfl
      · rw [hop]
        exact op.ticks w.inner
  | heartbeat now u => exact (Op.heartbeat now u).ticks w.inner
  | currentPolicy => exact .of_same rfl rfl rfl

theorem Shared.after_since (w : Shared ι) (acts : List (Activity ι)) :
    Since w.inner (w.after acts).inner := by
  induction acts generalizing w with
  | nil => exact .refl _
  | cons a acts ih => exact (w.act_ticks a).since.trans (ih (w.act a))

/-- Two registries of one run. -/
theorem Shared.since_or_since (w : Shared ι) {acts xs ys : List (Activity ι)} (hxs : xs <+: acts)
    (hys : ys <+: acts) :
    Since (w.after xs).inner (w.after ys).inner ∨ Since (w.after ys).inner (w.after xs).inner := by
  rcases List.prefix_or_prefix_of_prefix hxs hys with ⟨zs, rfl⟩ | ⟨zs, rfl⟩
  · exact .inl (w.after_append xs zs ▸ (w.after xs).after_since zs)
  · exact .inr (w.after_append ys zs ▸ (w.after ys).after_since zs)

/-- An answer describes a registry of the run. -/
theorem Shared.mem_answers {w : Shared ι} {acts : List (Activity ι)} {reply : HeartbeatReply}
    (h : reply ∈ w.answers acts) : ∃ xs, xs <+: acts ∧ reply = (w.after xs).inner.served := by
  induction acts generalizing w with
  | nil => cases h
  | cons a acts ih =>
      rcases List.mem_append.mp h with hhead | htail
      · refine ⟨[], List.nil_prefix, ?_⟩
        cases a with
        | advance t => cases hhead
        | currentPolicy => cases hhead
        | heartbeat now u => exact heartbeatUpdate_answer (Option.mem_toList.mp hhead)
      · obtain ⟨xs, hxs, hreply⟩ := ih htail
        exact ⟨a :: xs, List.cons_prefix_cons.mpr ⟨rfl, hxs⟩, hreply⟩

theorem Shared.answers_pairwise (w : Shared ι) (acts : List (Activity ι)) :
    (w.answers acts).Pairwise fun a b => a.seq ≤ b.seq ∧ (a.seq = b.seq → a = b) := by
  induction acts generalizing w with
  | nil => exact .nil
  | cons a acts ih =>
      refine List.pairwise_append.mpr ⟨?_, ih (w.act a), ?_⟩
      · cases w.answer a with
        | none => exact .nil
        | some reply => exact List.pairwise_singleton _ _
      · intro reply hreply later hlater
        obtain ⟨xs, _, rfl⟩ := Shared.mem_answers hlater
        have hsince : Since w.inner ((w.act a).after xs).inner := w.after_since (a :: xs)
        cases a with
        | advance t => cases hreply
        | currentPolicy => cases hreply
        | heartbeat now u =>
            rw [heartbeatUpdate_answer (Option.mem_toList.mp hreply)]
            exact ⟨hsince.le, fun heq => (hsince.served_eq heq).symm⟩

/-! ## §4 What `set_policy` returns. -/

theorem setPolicy_currentVersion (r : Inner) (p : Policy) :
    (r.setPolicy p).2.currentVersion = some p.version := by
  unfold Inner.setPolicy
  split
  · assumption
  · rfl

theorem setPolicy_kept {r : Inner} {p : Policy} (h : ¬ (r.setPolicy p).1 = true) :
    (r.setPolicy p).2 = r := by
  unfold Inner.setPolicy at h ⊢
  by_cases hversion : (r.policy.map fun q => q.version) = some p.version
  · rw [if_pos hversion]
  · rw [if_neg hversion] at h
    exact absurd rfl h

/-- The critical section of a waiting `set_policy`. -/
theorem Shared.step_setPolicy {w : Shared ι} {t : ι} {p : Policy}
    (h : w.calls t = .waiting (.setPolicy p)) :
    (w.step t).inner = (w.inner.setPolicy p).2 ∧
      ((w.step t).calls t).reply = some (.seq (w.inner.setPolicy p).2.policySeq) := by
  have hstep : w.step t =
      if (w.inner.setPolicy p).1 then
        { w with inner := (w.inner.setPolicy p).2 }.move t
          (.mutated (.seq (w.inner.setPolicy p).2.policySeq))
      else w.move t (.unchanged (.seq (w.inner.setPolicy p).2.policySeq)) := by
    unfold Shared.step
    rw [h]
    rfl
  rw [hstep]
  by_cases hchanged : (w.inner.setPolicy p).1 = true
  · rw [if_pos hchanged, Shared.move_same]
    exact ⟨rfl, rfl⟩
  · rw [if_neg hchanged, Shared.move_same]
    exact ⟨(setPolicy_kept hchanged).symm, rfl⟩

/-- Only its own steps move a call. -/
theorem Shared.act_calls {w : Shared ι} {t : ι} {a : Activity ι} (h : a ≠ .advance t) :
    (w.act a).calls t = w.calls t := by
  cases a with
  | heartbeat now u => rfl
  | currentPolicy => rfl
  | advance u =>
      have hne : t ≠ u := fun heq => h (by rw [heq])
      show (w.step u).calls t = w.calls t
      unfold Shared.step
      cases w.calls u with
      | waiting call =>
          by_cases hchanged : (call.op.apply w.inner).1 = true
          · simp only [if_pos hchanged]
            exact Shared.move_other _ _ hne
          · simp only [if_neg hchanged]
            exact Shared.move_other _ _ hne
      | mutated reply => exact Shared.move_other _ _ hne
      | snapshotted reply snap => exact Shared.move_other _ _ hne
      | written reply snap =>
          cases w.tmp with
          | some bytes => exact Shared.move_other _ _ hne
          | none => exact Shared.move_other _ _ hne
      | returned reply => rfl
      | unchanged reply => rfl

/-- An answer that is decided stays. -/
theorem Shared.step_reply {w : Shared ι} {t : ι} {reply : Reply}
    (h : (w.calls t).reply = some reply) : ((w.step t).calls t).reply = some reply := by
  unfold Shared.step
  cases hcall : w.calls t with
  | waiting call =>
      rw [hcall] at h
      cases h
  | mutated _ =>
      rw [hcall] at h
      simp only [Shared.move_same]
      exact h
  | snapshotted _ _ =>
      rw [hcall] at h
      simp only [Shared.move_same]
      exact h
  | written _ _ =>
      rw [hcall] at h
      cases w.tmp with
      | some bytes =>
          simp only [Shared.move_same]
          exact h
      | none =>
          simp only [Shared.move_same]
          exact h
  | returned _ => exact h
  | unchanged _ => exact h

theorem Shared.after_reply {w : Shared ι} {t : ι} {reply : Reply} (acts : List (Activity ι))
    (h : (w.calls t).reply = some reply) : ((w.after acts).calls t).reply = some reply := by
  induction acts generalizing w with
  | nil => exact h
  | cons a acts ih =>
      refine ih ?_
      by_cases ha : a = .advance t
      · rw [ha]
        exact Shared.step_reply h
      · rw [Shared.act_calls ha]
        exact h

/-- **The seq that `set_policy` answers was the seq of a registry with that version.** -/
theorem Shared.setPolicy_answer {w : Shared ι} {t : ι} {p : Policy} {n : Nat}
    {acts : List (Activity ι)} (hwaiting : w.calls t = .waiting (.setPolicy p))
    (hreply : ((w.after acts).calls t).reply = some (.seq n)) :
    ∃ xs, xs <+: acts ∧ (w.after xs).inner.policySeq = n ∧
      (w.after xs).inner.currentVersion = some p.version := by
  induction acts generalizing w with
  | nil =>
      have hnone : (w.calls t).reply = some (.seq n) := hreply
      rw [hwaiting] at hnone
      cases hnone
  | cons a acts ih =>
      by_cases ha : a = .advance t
      · subst ha
        obtain ⟨hinner, hdecided⟩ := Shared.step_setPolicy hwaiting
        have hn : (w.inner.setPolicy p).2.policySeq = n := by
          have hstays := Shared.after_reply acts hdecided
          exact Reply.seq.inj (Option.some.inj (hstays.symm.trans hreply))
        refine ⟨[.advance t], List.cons_prefix_cons.mpr ⟨rfl, List.nil_prefix⟩, ?_, ?_⟩
        · show (w.step t).inner.policySeq = n
          rw [hinner]
          exact hn
        · show (w.step t).inner.currentVersion = some p.version
          rw [hinner]
          exact setPolicy_currentVersion w.inner p
      · obtain ⟨xs, hxs, hfound⟩ := ih ((Shared.act_calls ha).trans hwaiting) hreply
        exact ⟨a :: xs, List.cons_prefix_cons.mpr ⟨rfl, hxs⟩, hfound⟩

/-! ## §5 The result. -/

/-- **A seq names one desired state.** A registry process in any state `w`, with any number of
`set_policy`, `set_desired_software` and `register` calls under way or still to come, in any
interleaving of their steps with heartbeats and reads:

* the seqs of the heartbeat answers never fall, and two answers with the same seq are the same answer;
* a step raises the seq by one if it changes the version of the current policy or the desired software,
  and keeps it otherwise;
* a seq returned by `set_policy(p)` is the seq of a registry of the run whose policy has the version of
  `p`, and every answer with that seq carries a policy of that version. -/
theorem seq_names_desired_state (w : Shared ι) (acts : List (Activity ι)) :
    ((w.answers acts).Pairwise fun a b => a.seq ≤ b.seq ∧ (a.seq = b.seq → a = b)) ∧
      (∀ a, ((w.after acts).act a).inner.policySeq = (w.after acts).inner.policySeq +
        if (w.after acts).inner.Differs ((w.after acts).act a).inner then 1 else 0) ∧
      ∀ t p n, w.calls t = .waiting (.setPolicy p) →
        ((w.after acts).calls t).result = some (.seq n) →
        (∃ xs, xs <+: acts ∧ (w.after xs).inner.policySeq = n ∧
            (w.after xs).inner.currentVersion = some p.version) ∧
          ∀ reply ∈ w.answers acts, reply.seq = n →
            reply.version = p.version ∧ (reply.policy.map fun q => q.version) = some p.version := by
  refine ⟨w.answers_pairwise acts, fun a => ((w.after acts).act_ticks a).seq, ?_⟩
  intro t p n hwaiting hresult
  obtain ⟨xs, hxs, hseq, hversion⟩ :=
    Shared.setPolicy_answer hwaiting (Progress.reply_of_result hresult)
  refine ⟨⟨xs, hxs, hseq, hversion⟩, ?_⟩
  intro reply hreply heq
  obtain ⟨ys, hys, rfl⟩ := Shared.mem_answers hreply
  -- the two registries have the same seq, whichever came first
  have hserved : (w.after ys).inner.served = (w.after xs).inner.served := by
    rcases w.since_or_since hxs hys with hsince | hsince
    · exact hsince.served_eq (hseq.trans heq.symm)
    · exact (hsince.served_eq (heq.trans hseq.symm)).symm
  rw [hserved]
  refine ⟨?_, hversion⟩
  show ((w.after xs).inner.currentVersion).getD 0 = p.version
  rw [hversion]
  rfl

end

end Edgewarden.Registry
