/-
# Edgewarden.State.Reconcile — desired and reported state of `edge-state/src/lib.rs`.

The pure half of the crate: `ReportedState::diff` and `apply_policy`, and what `ingest` and
`mark_policy_applied` assign to the fields of the store. `process` is one message handled the way
`sync_once` handles it when no file operation fails; the file operations are in `State.Store`.

Sequence numbers are only compared on the edge, so they are `Nat`, which is exact for the `u64`s of
the source: those below `2^64`. Versions and limits keep their width. `edge_state::Policy`, the
protocol's `Policy` and the registry's `PolicySnapshot` have the same five fields and are one type
here.

* `apply_order_free_iff`: "duplicates and stale messages are safe to re-apply; only the highest `seq` wins"
  is true of `diff`, which every caller asks first. `apply_policy` itself assigns the version of a stale
  message (`stale_policy_wins`).
-/
import Mathlib.Tactic.Common

namespace Edgewarden.State

/-! ## §1 Data. -/

structure Policy where
  version : UInt64
  maxConnections : UInt32
  idleTimeoutSecs : UInt64
  defaultUpstream : String
  rulesJson : String
  deriving DecidableEq, Repr

/-- `Policy::default()`. -/
def Policy.default : Policy where
  version := 0
  maxConnections := 512
  idleTimeoutSecs := 300
  defaultUpstream := "127.0.0.1:18081"
  rulesJson := "\x7b\x7d"

structure DesiredState where
  seq : Nat
  policy : Policy
  softwareVersion : String
  deriving DecidableEq, Repr

/-- `applied_seq` is a `u64`: what is below `2^64` is exact. -/
structure ReportedState where
  policyVersion : UInt64
  softwareVersion : String
  appliedSeq : Nat
  deriving DecidableEq, Repr

/-- `ReportedState::default()`. -/
def ReportedState.default : ReportedState := ⟨0, "", 0⟩

inductive ReconcileAction
  | noop
  | applyPolicy (p : Policy)
  | stageOta (version : String)
  deriving DecidableEq, Repr

/-! ## §2 Diff and apply. -/

def ReportedState.diff (r : ReportedState) (desired : DesiredState) : ReconcileAction :=
  if desired.seq ≤ r.appliedSeq ∧ desired.policy.version = r.policyVersion ∧
      desired.softwareVersion = r.softwareVersion then
    .noop
  else if desired.seq ≤ r.appliedSeq then
    .noop
  else if desired.policy.version ≠ r.policyVersion then
    .applyPolicy desired.policy
  else if desired.softwareVersion ≠ r.softwareVersion ∧ desired.softwareVersion ≠ "" then
    .stageOta desired.softwareVersion
  else
    .noop

/-- `apply_policy`: whether anything changed, and the new report. -/
def ReportedState.applyPolicy (r : ReportedState) (p : Policy) (seq : Nat) : Bool × ReportedState :=
  let (changed, r) :=
    if r.policyVersion ≠ p.version then (true, { r with policyVersion := p.version }) else (false, r)
  if seq > r.appliedSeq then (true, { r with appliedSeq := seq }) else (changed, r)

section Diff

variable {r : ReportedState} {d : DesiredState}

/-- A message that is not newer than the last applied one changes nothing. -/
theorem diff_stale (h : d.seq ≤ r.appliedSeq) : r.diff d = .noop := by
  unfold ReportedState.diff
  rw [if_pos h, ite_self]

theorem diff_newer (h : r.appliedSeq < d.seq) (hv : d.policy.version ≠ r.policyVersion) :
    r.diff d = .applyPolicy d.policy := by
  have hfresh : ¬ d.seq ≤ r.appliedSeq := Nat.not_le.mpr h
  unfold ReportedState.diff
  rw [if_neg (fun hc => hfresh hc.1), if_neg hfresh, if_pos hv]

theorem diff_same_version (h : r.appliedSeq < d.seq) (hv : d.policy.version = r.policyVersion) :
    r.diff d = if d.softwareVersion ≠ r.softwareVersion ∧ d.softwareVersion ≠ "" then
      .stageOta d.softwareVersion else .noop := by
  have hfresh : ¬ d.seq ≤ r.appliedSeq := Nat.not_le.mpr h
  unfold ReportedState.diff
  rw [if_neg (fun hc => hfresh hc.1), if_neg hfresh, if_neg (not_not.mpr hv)]

/-- **`diff` asks for a policy exactly when the message is newer and its version differs**, and then
for the message's own. -/
theorem diff_eq_applyPolicy_iff {p : Policy} :
    r.diff d = .applyPolicy p ↔
      p = d.policy ∧ r.appliedSeq < d.seq ∧ d.policy.version ≠ r.policyVersion := by
  rcases Nat.lt_or_ge r.appliedSeq d.seq with hlt | hle
  · by_cases hv : d.policy.version = r.policyVersion
    · rw [diff_same_version hlt hv]
      split <;> simp [hv]
    · rw [diff_newer hlt hv]
      simp [hlt, hv, eq_comm]
  · rw [diff_stale hle]
    simp [Nat.not_lt.mpr hle]

theorem applyPolicy_version (p : Policy) (seq : Nat) :
    (r.applyPolicy p seq).2.policyVersion = p.version := by
  unfold ReportedState.applyPolicy
  by_cases hv : r.policyVersion = p.version <;> by_cases hs : seq > r.appliedSeq <;> simp [hv, hs]

theorem applyPolicy_seq (p : Policy) (seq : Nat) :
    (r.applyPolicy p seq).2.appliedSeq = max r.appliedSeq seq := by
  unfold ReportedState.applyPolicy
  by_cases hv : r.policyVersion = p.version <;> by_cases hs : seq > r.appliedSeq <;>
    simp [hv, hs] <;> omega

end Diff

/-! ## §3 The store. -/

/-- `StateStore` without its path; also what `persist` writes (`Persisted`). -/
structure StateStore where
  desired : Option DesiredState
  reported : ReportedState
  lastGoodPolicy : Policy
  deriving DecidableEq, Repr

namespace StateStore

/-- What `open` builds when there is no state file. -/
def fresh : StateStore := ⟨none, .default, .default⟩

/-- `ingest`'s test for the newest desired snapshot. -/
def isNewer (s : StateStore) (desired : DesiredState) : Bool :=
  match s.desired with
  | some d => decide (desired.seq > d.seq)
  | none => true

/-- The fields after `ingest`. -/
def track (s : StateStore) (desired : DesiredState) : StateStore :=
  if s.isNewer desired then { s with desired := some desired } else s

/-- The fields after `mark_policy_applied`. -/
def applied (s : StateStore) (p : Policy) (seq : Nat) : StateStore :=
  { s with reported := (s.reported.applyPolicy p seq).2, lastGoodPolicy := p }

@[simp] theorem track_reported (s : StateStore) (d : DesiredState) :
    (s.track d).reported = s.reported := by
  unfold track
  split <;> rfl

@[simp] theorem track_lastGoodPolicy (s : StateStore) (d : DesiredState) :
    (s.track d).lastGoodPolicy = s.lastGoodPolicy := by
  unfold track
  split <;> rfl

/-- One message: `ingest`, then `mark_policy_applied` when the action asks for it. -/
def process (s : StateStore) (d : DesiredState) : StateStore :=
  match s.reported.diff d with
  | .applyPolicy p => (s.track d).applied p d.seq
  | _ => s.track d

/-- A message whose policy is applied. -/
theorem process_applied {s : StateStore} {d : DesiredState} {p : Policy} (h : s.reported.diff d = .applyPolicy p) :
    s.process d = (s.track d).applied p d.seq := by
  unfold process
  rw [h]

/-- A message that is only recorded. -/
theorem process_kept {s : StateStore} {d : DesiredState} (h : ∀ p, s.reported.diff d ≠ .applyPolicy p) :
    s.process d = s.track d := by
  unfold process
  cases hdiff : s.reported.diff d with
  | applyPolicy p => exact absurd hdiff (h p)
  | noop => rfl
  | stageOta v => rfl

/-- The messages of a list, in its order. -/
def deliver (s : StateStore) (messages : List DesiredState) : StateStore :=
  messages.foldl process s

/-- What one message does to the two fields that decide about later messages. -/
theorem process_reported (s : StateStore) (d : DesiredState) :
    ((s.process d).reported.policyVersion, (s.process d).reported.appliedSeq) =
      if s.reported.appliedSeq < d.seq ∧ d.policy.version ≠ s.reported.policyVersion then
        (d.policy.version, d.seq)
      else (s.reported.policyVersion, s.reported.appliedSeq) := by
  unfold process
  by_cases h : s.reported.appliedSeq < d.seq ∧ d.policy.version ≠ s.reported.policyVersion
  · rw [if_pos h, diff_newer h.1 h.2]
    simp only [applied, applyPolicy_version, applyPolicy_seq, track_reported,
      Nat.max_eq_right (Nat.le_of_lt h.1)]
  · rw [if_neg h]
    cases hd : s.reported.diff d with
    | applyPolicy p => exact absurd (diff_eq_applyPolicy_iff.mp hd).2 h
    | noop => simp only [track_reported]
    | stageOta v => simp only [track_reported]

end StateStore

/-! ## §4 `apply_policy` in any order. -/

/-- The pairs of a list, applied in its order. -/
def ReportedState.applyAll (r : ReportedState) (pairs : List (Policy × Nat)) : ReportedState :=
  pairs.foldl (fun r x => (r.applyPolicy x.1 x.2).2) r

section Order

variable {r : ReportedState} {pairs : List (Policy × Nat)} {x : Policy × Nat}

theorem applyAll_snoc : r.applyAll (pairs ++ [x]) = ((r.applyAll pairs).applyPolicy x.1 x.2).2 := by
  simp [ReportedState.applyAll]

/-- The version is that of the pair applied last, whatever its seq. -/
theorem applyAll_last : (r.applyAll (pairs ++ [x])).policyVersion = x.1.version := by
  rw [applyAll_snoc]
  exact applyPolicy_version x.1 x.2

/-- The seq is a maximum. -/
theorem applyAll_seq_le_iff {n : Nat} :
    (r.applyAll pairs).appliedSeq ≤ n ↔ r.appliedSeq ≤ n ∧ ∀ y ∈ pairs, y.2 ≤ n := by
  induction pairs generalizing r with
  | nil => simp [ReportedState.applyAll]
  | cons x pairs ih =>
      have hcons : r.applyAll (x :: pairs) = (r.applyPolicy x.1 x.2).2.applyAll pairs := rfl
      rw [hcons, ih, applyPolicy_seq, List.forall_mem_cons, Nat.max_le, and_assoc]

theorem le_applyAll_seq (hx : x ∈ pairs) : x.2 ≤ (r.applyAll pairs).appliedSeq :=
  (applyAll_seq_le_iff.mp (Nat.le_refl _)).2 x hx

/-- Pairs of one version leave that version. -/
theorem applyAll_version (hx : x ∈ pairs) (hsame : ∀ y ∈ pairs, y.1.version = x.1.version) :
    (r.applyAll pairs).policyVersion = x.1.version := by
  obtain rfl | ⟨before, y, rfl⟩ := pairs.eq_nil_or_concat
  · cases hx
  · rw [List.concat_eq_append, applyAll_last]
    exact hsame y (by simp)

/-- A pair of the reported version and no newer seq changes nothing. -/
theorem applyPolicy_again (hv : r.policyVersion = x.1.version) (hs : x.2 ≤ r.appliedSeq) :
    r.applyPolicy x.1 x.2 = (false, r) := by
  simp [ReportedState.applyPolicy, hv, Nat.not_lt.mpr hs]

/-- Applying the pairs leads to the pair with the highest seq in every order, and applying one of them
again changes nothing. -/
structure OrderFree (r : ReportedState) (pairs : List (Policy × Nat)) : Prop where
  highest : ∀ order x, order.Perm pairs → x ∈ pairs → (∀ y ∈ pairs, y.2 ≤ x.2) →
    (r.applyAll order).policyVersion = x.1.version ∧ (r.applyAll order).appliedSeq = x.2
  same : ∀ order order', order.Perm pairs → order'.Perm pairs →
    (r.applyAll order).policyVersion = (r.applyAll order').policyVersion ∧
      (r.applyAll order).appliedSeq = (r.applyAll order').appliedSeq
  again : ∀ order x, order.Perm pairs → x ∈ pairs →
    (r.applyAll order).applyPolicy x.1 x.2 = (false, r.applyAll order)

/-- Some order applies a given pair last. -/
theorem exists_order_last (hx : x ∈ pairs) : ∃ order, (order ++ [x]).Perm pairs :=
  ⟨pairs.erase x, (List.perm_append_singleton x _).trans (List.perm_cons_erase hx).symm⟩

theorem applyAll_seq_perm {order : List (Policy × Nat)} (h : order.Perm pairs) :
    (r.applyAll order).appliedSeq = (r.applyAll pairs).appliedSeq := by
  have hle : ∀ n, (r.applyAll order).appliedSeq ≤ n ↔ (r.applyAll pairs).appliedSeq ≤ n := by
    intro n
    simp only [applyAll_seq_le_iff, h.mem_iff]
  exact Nat.le_antisymm ((hle _).mpr (Nat.le_refl _)) ((hle _).mp (Nat.le_refl _))

/-- **When the order does not matter.** For every report that has applied nothing and every list of pairs,
with distinct seqs or not: all orders lead to the pair with the highest seq, and re-applying a pair changes
nothing, if and only if all policies have one version. -/
theorem apply_order_free_iff (r : ReportedState) (hfresh : r.appliedSeq = 0) (pairs : List (Policy × Nat)) :
    OrderFree r pairs ↔ ∀ x ∈ pairs, ∀ y ∈ pairs, x.1.version = y.1.version := by
  constructor
  · intro h x hx y hy
    obtain ⟨orderx, hox⟩ := exists_order_last hx
    obtain ⟨ordery, hoy⟩ := exists_order_last hy
    have hsame := (h.same _ _ hox hoy).1
    rw [applyAll_last, applyAll_last] at hsame
    exact hsame
  · intro h
    have hversion : ∀ order x, order.Perm pairs → x ∈ pairs →
        (r.applyAll order).policyVersion = x.1.version := by
      intro order x ho hx
      exact applyAll_version (ho.mem_iff.mpr hx) fun y hy => h y (ho.mem_iff.mp hy) x hx
    refine ⟨?_, ?_, ?_⟩
    · intro order x ho hx hmax
      refine ⟨hversion order x ho hx, ?_⟩
      rw [applyAll_seq_perm ho]
      refine Nat.le_antisymm (applyAll_seq_le_iff.mpr ⟨?_, hmax⟩) (le_applyAll_seq hx)
      omega
    · intro order order' ho ho'
      refine ⟨?_, by rw [applyAll_seq_perm ho, applyAll_seq_perm ho']⟩
      cases pairs with
      | nil => rw [ho.eq_nil, ho'.eq_nil]
      | cons x rest => rw [hversion order x ho (by simp), hversion order' x ho' (by simp)]
    · intro order x ho hx
      refine applyPolicy_again (hversion order x ho hx) ?_
      rw [applyAll_seq_perm ho]
      exact le_applyAll_seq hx

end Order

/-- The default policy in another version. -/
def atVersion (version : UInt64) : Policy := { Policy.default with version := version }

/-- Two pushes of version 7. -/
theorem apply_order_free_repushed :
    ReportedState.default.appliedSeq = 0 ∧ OrderFree .default [(atVersion 7, 1), (atVersion 7, 2)] := by
  refine ⟨rfl, (apply_order_free_iff .default rfl _).mpr ?_⟩
  simp

/-- Version 1 at seq 1 and version 2 at seq 2: the stale pair, applied last, takes the version back and
keeps the seq, and the pair that should have won then counts as a change. -/
theorem stale_policy_wins :
    ReportedState.default.applyAll [(atVersion 1, 1), (atVersion 2, 2)] = ⟨2, "", 2⟩ ∧
      ReportedState.default.applyAll [(atVersion 2, 2), (atVersion 1, 1)] = ⟨1, "", 2⟩ ∧
      ((ReportedState.default.applyAll [(atVersion 2, 2), (atVersion 1, 1)]).applyPolicy (atVersion 2) 2).1 = true ∧
      ¬ OrderFree .default [(atVersion 1, 1), (atVersion 2, 2)] := by
  refine ⟨by decide, by decide, by decide, ?_⟩
  intro h
  have hsame := (h.same _ _ (List.Perm.refl _) (List.Perm.swap (atVersion 1, 1) (atVersion 2, 2) [])).1
  revert hsame
  decide

end Edgewarden.State
