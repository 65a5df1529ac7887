/-
# Edgewarden.Registry.Register — `Register` responses and concurrent pushes.

The `register` handler takes its answer from two places: version and software from the record that
`Registry::register` returns, which was built under the write lock, and the policy from `current_policy`, read
under a new lock when the record's snapshot has been written. A push that comes between the two is in the one
and not in the other.

* `registerResponse` is the answer of a call at the moment of its second read; a run here is everything up to
  that moment, in any interleaving of the calls of `Registry.Concurrent` with heartbeats and reads.
* `register_response_undisturbed`: the response is one snapshot of the registry in every run in which no
  `set_policy` with another version takes its turn between the two reads. `register_response_torn` is a run of
  two calls in which one does.
-/
import Edgewarden.Registry.History
import Edgewarden.Registry.Service

namespace Edgewarden.Registry

open Edgewarden.State

section

variable {ι : Type} [DecidableEq ι]

/-! ## §1 The response. -/

omit [DecidableEq ι] in
/-- The end of the `register` handler for call `t`: once the record is there, the policy is read. -/
def Shared.registerResponse (w : Shared ι) (t : ι) : Option RegisterResponse :=
  match (w.calls t).result with
  | some (.record rec') =>
      some ⟨true, rec'.desiredPolicyVersion, w.inner.currentPolicy.1, rec'.desiredSoftwareVersion⟩
  | _ => none

/-- No `set_policy` that changes the current version takes its turn while call `t` stands between its critical
section and the read of its response. -/
def Undisturbed (w : Shared ι) (t : ι) (acts : List (Activity ι)) : Prop :=
  ∀ before u after p, acts = before ++ .advance u :: after →
    ((w.after before).calls t).reply.isSome = true → (w.after before).calls u = .waiting (.setPolicy p) →
    (w.after before).inner.currentVersion = some p.version

/-! ## §2 The two reads. -/

/-- The critical section of a call: a call that changes nothing leaves the desired state too. -/
theorem Shared.step_waiting {w : Shared ι} {u : ι} {call : Call} (h : w.calls u = .waiting call) :
    (w.step u).inner.policy = (call.op.apply w.inner).2.policy ∧
      ((w.step u).calls u).reply = some (call.reply w.inner) := by
  unfold Shared.step
  rw [h]
  by_cases hchanged : (call.op.apply w.inner).1 = true
  · simp only [if_pos hchanged, Shared.move_same]
    exact ⟨rfl, rfl⟩
  · have hkept : (call.op.apply w.inner).2.policy = w.inner.policy :=
      (call.op.apply_sameRoster (by simpa using hchanged)).policy
    simp only [if_neg hchanged, Shared.move_same]
    exact ⟨hkept.symm, rfl⟩

/-- Only a critical section touches the registry. -/
theorem Shared.step_not_waiting {w : Shared ι} {u : ι} (h : ∀ call, w.calls u ≠ .waiting call) :
    (w.step u).inner = w.inner := by
  unfold Shared.step
  split
  · rename_i call hcall
    exact absurd hcall (h call)
  · rfl
  · rfl
  · split <;> rfl
  · rfl
  · rfl

/-- Only a `set_policy` with another version changes the policy. -/
theorem Shared.act_policy {w : Shared ι} {a : Activity ι}
    (h : ∀ u p, a = .advance u → w.calls u = .waiting (.setPolicy p) → w.inner.currentVersion = some p.version) :
    (w.act a).inner.policy = w.inner.policy := by
  cases a with
  | currentPolicy => rfl
  | heartbeat now u =>
      show (w.inner.heartbeatUpdate now u).2.policy = _
      unfold Inner.heartbeatUpdate
      split <;> rfl
  | advance u =>
      show (w.step u).inner.policy = _
      by_cases hwaiting : ∃ call, w.calls u = .waiting call
      · obtain ⟨call, hcall⟩ := hwaiting
        rw [(Shared.step_waiting hcall).1]
        cases call with
        | register now args => rfl
        | setDesiredSoftware version =>
            simp only [Call.op, Op.apply, Inner.setDesiredSoftware]
            split <;> rfl
        | setPolicy p =>
            -- the version is the current one, so `set_policy` returns early
            have hsame : (w.inner.policy.map fun q => q.version) = some p.version := h u p rfl hcall
            simp only [Call.op, Op.apply, Inner.setPolicy, if_pos hsame]
      · rw [Shared.step_not_waiting fun call hcall => hwaiting ⟨call, hcall⟩]

/-- From the critical section of call `t` on, an undisturbed run keeps the policy. -/
theorem Shared.after_policy {w : Shared ι} {t : ι} {reply : Reply} {acts : List (Activity ι)}
    (hreply : (w.calls t).reply = some reply) (h : Undisturbed w t acts) :
    (w.after acts).inner.policy = w.inner.policy := by
  induction acts using List.reverseRecOn with
  | nil => rfl
  | append_singleton acts a ih =>
      have hinit : Undisturbed w t acts := by
        rintro before u after p rfl
        exact h before u (after ++ [a]) p (by simp)
      rw [w.after_append, ← ih hinit]
      refine Shared.act_policy fun u p ha hcall => ?_
      refine h acts u [] p (by rw [ha]) ?_ hcall
      rw [Shared.after_reply acts hreply]
      rfl

/-- A call that has an answer has had its turn. -/
theorem Shared.turn_of_reply {w : Shared ι} {t : ι} {call : Call} {acts : List (Activity ι)}
    (hwaiting : w.calls t = .waiting call) (hreply : ((w.after acts).calls t).reply.isSome = true) :
    ∃ xs ys, acts = xs ++ .advance t :: ys ∧ (w.after xs).calls t = .waiting call := by
  induction acts generalizing w with
  | nil =>
      have hnone : (w.calls t).reply.isSome = true := hreply
      rw [hwaiting] at hnone
      cases hnone
  | cons a acts ih =>
      by_cases ha : a = .advance t
      · exact ⟨[], acts, by rw [ha]; rfl, hwaiting⟩
      · obtain ⟨xs, ys, rfl, hturn⟩ := ih ((Shared.act_calls ha).trans hwaiting) hreply
        exact ⟨a :: xs, ys, rfl, hturn⟩

/-! ## §3 The result. -/

omit [DecidableEq ι] in
theorem Shared.registerResponse_eq_some {w : Shared ι} {t : ι} {resp : RegisterResponse}
    (h : w.registerResponse t = some resp) :
    ∃ rec', (w.calls t).reply = some (.record rec') ∧
      resp = ⟨true, rec'.desiredPolicyVersion, w.inner.policy, rec'.desiredSoftwareVersion⟩ := by
  unfold Shared.registerResponse at h
  split at h
  · rename_i rec' hrecord
    exact ⟨rec', Progress.reply_of_result hrecord, (Option.some.inj h).symm⟩
  · cases h

/-- An undisturbed response is the one of a handler that does everything at once, at some moment of the run. -/
theorem Shared.registerResponse_undisturbed {w : Shared ι} {t : ι} {now : UInt64} {req : RegisterRequest}
    {acts : List (Activity ι)} {resp : RegisterResponse} (hwaiting : w.calls t = .waiting (.register now req.args))
    (hcalm : Undisturbed w t acts) (hresp : (w.after acts).registerResponse t = some resp) :
    ∃ xs, xs <+: acts ∧ resp = (serveRegister (w.after xs).inner now req).1 := by
  obtain ⟨rec', hreply, rfl⟩ := Shared.registerResponse_eq_some hresp
  obtain ⟨xs, ys, rfl, hturn⟩ := Shared.turn_of_reply hwaiting (by rw [hreply]; rfl)
  -- the turn of the call, and the rest of the run after it
  obtain ⟨hpolicy, hdecided⟩ := Shared.step_waiting hturn
  have hsplit : ∀ zs, w.after (xs ++ .advance t :: zs) = ((w.after xs).step t).after zs :=
    fun zs => w.after_append xs _
  have hrest : Undisturbed ((w.after xs).step t) t ys := by
    rintro before u after p rfl
    rw [← hsplit]
    exact hcalm _ u after p (by simp)
  have hread : (w.after (xs ++ .advance t :: ys)).inner.policy = (w.after xs).inner.policy := by
    rw [hsplit]
    exact (Shared.after_policy hdecided hrest).trans hpolicy
  have hrecord : rec' = (w.after xs).inner.newRecord now req.args := by
    rw [hsplit, Shared.after_reply ys hdecided] at hreply
    exact (Reply.record.inj (Option.some.inj hreply)).symm
  refine ⟨xs, List.prefix_append _ _, ?_⟩
  rw [hread, hrecord]
  rfl

/-- **A `Register` response is one snapshot in every undisturbed run.** A registry process in any state, a
registration that has not had its turn, and any interleaving up to the read of its response: the response
names the version of the policy it carries, or 0 if it carries none, and its policy and software were the
registry's at one moment of the run. -/
theorem register_response_undisturbed (w : Shared ι) (t : ι) (now : UInt64) (req : RegisterRequest)
    (acts : List (Activity ι)) (resp : RegisterResponse) (hwaiting : w.calls t = .waiting (.register now req.args))
    (hcalm : Undisturbed w t acts) (hresp : (w.after acts).registerResponse t = some resp) :
    resp.desiredPolicyVersion = (resp.policy.map fun p => p.version).getD 0 ∧
      ∃ xs, xs <+: acts ∧ (w.after xs).inner.policy = resp.policy ∧
        (w.after xs).inner.desiredSoftware = resp.desiredSoftwareVersion := by
  obtain ⟨xs, hxs, rfl⟩ := Shared.registerResponse_undisturbed hwaiting hcalm hresp
  exact ⟨rfl, xs, hxs, rfl, rfl⟩

end

/-- The request of an edge without a policy. -/
def firstRequest : RegisterRequest := ⟨some ⟨"edge-1", "hw-1", "1.0.0"⟩, "0", "1.0.0"⟩

/-- A registration, a push of version 5 and a change of the software, on an empty registry. -/
def threeCalls : Shared (Fin 3) :=
  .start none .empty fun
    | 0 => .register 7 firstRequest.args
    | 1 => .setPolicy { Policy.default with version := 5 }
    | 2 => .setDesiredSoftware "2.0.0"

/-- The push has its turn before the registration, the software within it. -/
def registration : List (Activity (Fin 3)) :=
  [.advance 1, .advance 0, .advance 2, .advance 0, .advance 0, .advance 0]

theorem registration_undisturbed : Undisturbed threeCalls 0 registration := by
  intro before u after p hsplit hreply hcall
  have hbefore : before = registration.take before.length := by rw [hsplit, List.take_left]
  have hat : registration[before.length]? = some (.advance u) := by simp [hsplit]
  have hlt : before.length < 6 := by
    have hlen := congrArg List.length hsplit
    simp [registration] at hlen
    omega
  -- what is left once the registration has had its turn
  have hleft : ∀ (k : Fin 6) (u : Fin 3), .advance 0 ∈ registration.take k →
      registration[k.val]? = some (.advance u) → u = 0 ∨ k.val = 2 ∧ u = 2 := by decide
  have hwaiting : threeCalls.calls 0 = .waiting (.register 7 firstRequest.args) := rfl
  obtain ⟨xs, ys, hturn, _⟩ := Shared.turn_of_reply hwaiting hreply
  have hmem : .advance 0 ∈ registration.take before.length := by
    rw [← hbefore, hturn]
    simp
  rcases hleft ⟨before.length, hlt⟩ u hmem hat with rfl | ⟨hk, rfl⟩
  · rw [hcall] at hreply
    cases hreply
  · have hk' : before.length = 2 := hk
    rw [hbefore, hk'] at hcall
    cases hcall

theorem register_response_registration :
    let resp : RegisterResponse := ⟨true, 5, some { Policy.default with version := 5 }, ""⟩
    resp.desiredPolicyVersion = (resp.policy.map fun p => p.version).getD 0 ∧
      ∃ xs, xs <+: registration ∧ (threeCalls.after xs).inner.policy = resp.policy ∧
        (threeCalls.after xs).inner.desiredSoftware = resp.desiredSoftwareVersion :=
  register_response_undisturbed threeCalls 0 7 firstRequest registration _ rfl registration_undisturbed
    (by decide +kernel)

/-- A registration and a push of version 5, on an empty registry. -/
def registerAndPush : Shared Bool :=
  .start none .empty fun
    | false => .register 7 firstRequest.args
    | true => .setPolicy { Policy.default with version := 5 }

/-- The push takes its turn while the record of the registration is being written. The response says that
version 0 is desired, and carries version 5. -/
theorem register_response_torn :
    let p : Policy := { Policy.default with version := 5 }
    let acts : List (Activity Bool) := [.advance false, .advance true, .advance false, .advance false, .advance false]
    registerAndPush.calls false = .waiting (.register 7 firstRequest.args) ∧
      (registerAndPush.after acts).registerResponse false = some ⟨true, 0, some p, ""⟩ ∧
      (0 : UInt64) ≠ ((some p).map fun p => p.version).getD 0 := by
  intro p acts
  exact ⟨rfl, by decide +kernel, by decide +kernel⟩

end Edgewarden.Registry
