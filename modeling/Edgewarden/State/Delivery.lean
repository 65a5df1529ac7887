/-
# Edgewarden.State.Delivery — what becomes of messages: lost updates and delivery orders.

The store keeps ONE `applied_seq` for the policy and the software part of a message, and advances it
only when a policy is applied. The first two results of this module are consequences of that, the third
holds in spite of it:

* `stageOta_reached_iff`: a message that changes policy version and software at once never stages
  its software, however often it is processed.
* `highest_seq_wins_iff`: a newer message with the version that is already applied does not move
  `applied_seq`, so an older message with another version can still be applied after it. The exact
  condition on a set of messages under which every delivery order ends at the newest version.
* `redelivery_changes_nothing`: messages that first come in the order of their seqs may come again at any
  later time. A redelivered message above `applied_seq` carries the version that is applied.
-/
import Edgewarden.State.Reconcile
import Mathlib.Data.List.Perm.Basic
import Mathlib.Data.List.Nodup
import Mathlib.Logic.Function.Iterate

namespace Edgewarden.State

open StateStore

/-! ## §1 Processing one message again and again. -/

/-- The action of round `n` (from zero) when `d` is processed over and over. -/
def actionAt (s : StateStore) (d : DesiredState) (n : Nat) : ReconcileAction :=
  ((fun t : StateStore => t.process d)^[n] s).reported.diff d

/-- Once a message is not newer than the last applied one, it stays so. -/
theorem diff_noop_forever {s : StateStore} {d : DesiredState} (h : d.seq ≤ s.reported.appliedSeq)
    (n : Nat) : actionAt s d n = .noop := by
  have hkeep : ∀ n, d.seq ≤ ((fun t : StateStore => t.process d)^[n] s).reported.appliedSeq := by
    intro n
    induction n with
    | zero => exact h
    | succ n ih =>
        rw [Function.iterate_succ_apply']
        have hpair := process_reported ((fun t : StateStore => t.process d)^[n] s) d
        rw [if_neg (fun hc => absurd hc.1 (Nat.not_lt.mpr ih))] at hpair
        rw [(Prod.mk.inj hpair).2]
        exact ih
  exact diff_stale (hkeep n)

/-- A message with a new policy version never stages its software: round 0 applies the policy, and
from then on `applied_seq` is the message's own seq. -/
theorem stageOta_lost {s : StateStore} {d : DesiredState} (hseq : s.reported.appliedSeq < d.seq)
    (hv : d.policy.version ≠ s.reported.policyVersion) (v : String) (n : Nat) :
    actionAt s d n ≠ .stageOta v := by
  cases n with
  | zero =>
      have h0 : actionAt s d 0 = .applyPolicy d.policy := diff_newer hseq hv
      rw [h0]
      exact nofun
  | succ n =>
      have hpair := process_reported s d
      rw [if_pos ⟨hseq, hv⟩] at hpair
      have hstale : d.seq ≤ (s.process d).reported.appliedSeq :=
        Nat.le_of_eq (Prod.mk.inj hpair).2.symm
      have hnoop : actionAt s d (n + 1) = .noop := by
        show ((fun t : StateStore => t.process d)^[n + 1] s).reported.diff d = .noop
        rw [Function.iterate_succ_apply]
        exact diff_noop_forever hstale n
      rw [hnoop]
      exact nofun

/-- **The software part of a message is reached exactly when its policy part has nothing to do.** -/
theorem stageOta_reached_iff (s : StateStore) (d : DesiredState)
    (hseq : s.reported.appliedSeq < d.seq) (hempty : d.softwareVersion ≠ "")
    (hsoft : d.softwareVersion ≠ s.reported.softwareVersion) :
    (∃ n, actionAt s d n = .stageOta d.softwareVersion) ↔
      d.policy.version = s.reported.policyVersion := by
  constructor
  · rintro ⟨n, hn⟩
    by_contra hv
    exact stageOta_lost hseq hv _ n hn
  · intro hv
    refine ⟨0, ?_⟩
    show s.reported.diff d = _
    rw [diff_same_version hseq hv, if_pos ⟨hsoft, hempty⟩]

/-- A message with the given seq, policy version and software; the other policy fields are the
defaults. -/
def message (seq : Nat) (version : UInt64) (software : String) : DesiredState :=
  ⟨seq, { Policy.default with version := version }, software⟩

theorem stageOta_reached_software_only :
    (∃ n, actionAt fresh (message 1 0 "2.0.0") n = .stageOta "2.0.0") ↔
      (message 1 0 "2.0.0").policy.version = fresh.reported.policyVersion :=
  stageOta_reached_iff fresh (message 1 0 "2.0.0") (by decide) (by decide) (by decide)

/-- One message that raises the policy to version 1 and the software to `2.0.0`. -/
theorem software_update_lost :
    fresh.reported.appliedSeq < (message 1 1 "2.0.0").seq ∧
      (message 1 1 "2.0.0").softwareVersion ≠ "" ∧
      (message 1 1 "2.0.0").softwareVersion ≠ fresh.reported.softwareVersion ∧
      ¬ ∃ n, actionAt fresh (message 1 1 "2.0.0") n = .stageOta "2.0.0" := by
  refine ⟨by decide, by decide, by decide, ?_⟩
  rintro ⟨n, hn⟩
  exact stageOta_lost (by decide) (by decide) _ n hn

/-! ## §2 Delivery orders. -/

/-- What decides about later messages: the applied version and its seq. -/
def view (s : StateStore) : UInt64 × Nat := (s.reported.policyVersion, s.reported.appliedSeq)

/-- One message, on the view. -/
def absorb (x : UInt64 × Nat) (d : DesiredState) : UInt64 × Nat :=
  if x.2 < d.seq ∧ d.policy.version ≠ x.1 then (d.policy.version, d.seq) else x

theorem view_deliver (messages : List DesiredState) (s : StateStore) :
    view (s.deliver messages) = messages.foldl absorb (view s) := by
  induction messages generalizing s with
  | nil => rfl
  | cons d rest ih =>
      show view ((s.process d).deliver rest) = _
      rw [ih, List.foldl_cons]
      congr 1
      exact process_reported s d

/-- Versions settle on `W`: from a seq that carries `W` on (the fresh store's version counts as seq
zero), every larger seq carries `W`. -/
structure SettlesOn (messages : List DesiredState) (W : UInt64) : Prop where
  initial : W = ReportedState.default.policyVersion → ∀ m ∈ messages, m.policy.version = W
  later : ∀ m ∈ messages, m.policy.version = W →
    ∀ m' ∈ messages, m.seq < m'.seq → m'.policy.version = W

/-- A view on the way to `W`: arrived, with nothing left that could change it; or not there yet, with
every message that carries `W` still able to. -/
def Bound (messages : List DesiredState) (W : UInt64) (x : UInt64 × Nat) : Prop :=
  (x.1 = W ∧ ∀ m ∈ messages, x.2 < m.seq → m.policy.version = W) ∨
    (x.1 ≠ W ∧ ∀ m ∈ messages, m.policy.version = W → x.2 < m.seq)

section Orders

variable {M : List DesiredState} {W : UInt64}

theorem seq_injective (hnodup : (M.map fun m => m.seq).Nodup) {m m' : DesiredState} (hm : m ∈ M)
    (hm' : m' ∈ M) (h : m.seq = m'.seq) : m = m' :=
  List.inj_on_of_nodup_map hnodup hm hm' h

/-- One message keeps the view bound for `W`, and a message that carries `W` brings it there. -/
theorem Bound.absorb {x : UInt64 × Nat} {d : DesiredState} (h : Bound M W x)
    (hnodup : (M.map fun m => m.seq).Nodup) (hsettle : SettlesOn M W) (hd : d ∈ M) :
    Bound M W (absorb x d) ∧ (x.1 = W ∨ d.policy.version = W → (State.absorb x d).1 = W) := by
  unfold State.absorb
  rcases h with ⟨hx, hrest⟩ | ⟨hx, hopen⟩
  · have hstay : ¬ (x.2 < d.seq ∧ d.policy.version ≠ x.1) := by
      rintro ⟨hlt, hne⟩
      exact hne ((hrest d hd hlt).trans hx.symm)
    rw [if_neg hstay]
    exact ⟨.inl ⟨hx, hrest⟩, fun _ => hx⟩
  · by_cases hdW : d.policy.version = W
    · have hgo : x.2 < d.seq ∧ d.policy.version ≠ x.1 :=
        ⟨hopen d hd hdW, fun he => hx (he.symm.trans hdW)⟩
      rw [if_pos hgo]
      exact ⟨.inl ⟨hdW, hsettle.later d hd hdW⟩, fun _ => hdW⟩
    · refine ⟨?_, ?_⟩
      · split
        · refine .inr ⟨hdW, ?_⟩
          intro m hm hmW
          -- a message with `W` below or at `d` would force `W` on `d`
          rcases Nat.lt_trichotomy d.seq m.seq with hlt | heq | hgt
          · exact hlt
          · exact absurd (seq_injective hnodup hd hm heq ▸ hmW) hdW
          · exact absurd (hsettle.later m hm hmW d hd hgt) hdW
        · exact .inr ⟨hx, hopen⟩
      · rintro (h | h)
        · exact absurd h hx
        · exact absurd h hdW

/-- A whole delivery of messages of the set. -/
theorem Bound.foldl {x : UInt64 × Nat} (h : Bound M W x)
    (hnodup : (M.map fun m => m.seq).Nodup) (hsettle : SettlesOn M W) {l : List DesiredState}
    (hl : ∀ m ∈ l, m ∈ M) (hW : x.1 = W ∨ ∃ m ∈ l, m.policy.version = W) :
    (l.foldl State.absorb x).1 = W := by
  induction l generalizing x with
  | nil =>
      rcases hW with hW | ⟨m, hm, _⟩
      · exact hW
      · cases hm
  | cons d rest ih =>
      obtain ⟨hbound, harrive⟩ := h.absorb hnodup hsettle (hl d List.mem_cons_self)
      refine ih hbound (fun m hm => hl m (List.mem_cons_of_mem _ hm)) ?_
      rcases hW with hW | ⟨m, hm, hmW⟩
      · exact .inl (harrive (.inl hW))
      · rcases List.mem_cons.mp hm with rfl | hm
        · exact .inl (harrive (.inr hmW))
        · exact .inr ⟨m, hm, hmW⟩

/-- Messages that carry the applied version change nothing. -/
theorem foldl_absorb_same {x : UInt64 × Nat} {l : List DesiredState}
    (h : ∀ m ∈ l, m.policy.version = x.1) : l.foldl absorb x = x := by
  induction l with
  | nil => rfl
  | cons d rest ih =>
      have hstay : absorb x d = x := by
        unfold absorb
        rw [if_neg (fun hc => hc.2 (h d List.mem_cons_self))]
      rw [List.foldl_cons, hstay]
      exact ih fun m hm => h m (List.mem_cons_of_mem _ hm)

/-- Messages that do not carry `W` do not bring it back. -/
theorem foldl_absorb_ne {x : UInt64 × Nat} {l : List DesiredState} (hx : x.1 ≠ W)
    (h : ∀ m ∈ l, m.policy.version ≠ W) : (l.foldl absorb x).1 ≠ W := by
  induction l generalizing x with
  | nil => exact hx
  | cons d rest ih =>
      refine ih ?_ fun m hm => h m (List.mem_cons_of_mem _ hm)
      unfold absorb
      split
      · exact h d List.mem_cons_self
      · exact hx

/-- An order that leaves `W` for good: the messages that carry `W` first, in an order that ends with
`W` at a low seq, then one with a larger seq that does not carry it. -/
theorem exists_order_leaving {x : UInt64 × Nat} {ws : List DesiredState} {m' : DesiredState}
    (hws : ws.Perm (M.filter fun m => decide (m.policy.version = W))) (hm' : m' ∈ M)
    (hne : m'.policy.version ≠ W) (hx : (ws.foldl absorb x).1 = W)
    (hlow : (ws.foldl absorb x).2 < m'.seq) :
    ∃ l : List DesiredState, l.Perm M ∧ (l.foldl absorb x).1 ≠ W := by
  set ns := M.filter fun m => !decide (m.policy.version = W) with hns
  have hmem : m' ∈ ns := List.mem_filter.mpr ⟨hm', by simp [hne]⟩
  have hperm : (ws ++ m' :: ns.erase m').Perm M := by
    have htail : (m' :: ns.erase m').Perm ns := (List.perm_cons_erase hmem).symm
    exact (hws.append htail).trans (List.filter_append_perm _ M)
  refine ⟨ws ++ m' :: ns.erase m', hperm, ?_⟩
  rw [List.foldl_append, List.foldl_cons]
  have happly : absorb (ws.foldl absorb x) m' = (m'.policy.version, m'.seq) := by
    unfold absorb
    rw [if_pos ⟨hlow, fun he => hne (he.trans hx)⟩]
  rw [happly]
  refine foldl_absorb_ne hne ?_
  intro m hm
  have hm : m ∈ ns := List.mem_of_mem_erase hm
  simpa using (List.mem_filter.mp hm).2

end Orders

/-- The message with the highest seq of a list. -/
structure IsHighest (top : DesiredState) (messages : List DesiredState) : Prop where
  mem : top ∈ messages
  highest : ∀ m ∈ messages, m.seq ≤ top.seq

/-- Every order in which the messages reach a fresh store ends at version `W`. -/
def AllOrdersReach (messages : List DesiredState) (W : UInt64) : Prop :=
  ∀ l : List DesiredState, l.Perm messages → (fresh.deliver l).reported.policyVersion = W

/-- The sufficient half, for any version the set carries. -/
theorem allOrdersReach_of_settles {M : List DesiredState} {W : UInt64}
    (hnodup : (M.map fun m => m.seq).Nodup) (hpos : ∀ m ∈ M, 1 ≤ m.seq)
    (hsettle : SettlesOn M W) (hW : ∃ m ∈ M, m.policy.version = W) : AllOrdersReach M W := by
  intro l hl
  have hstart : Bound M W (view fresh) := by
    by_cases h0 : W = ReportedState.default.policyVersion
    · exact .inl ⟨h0.symm, fun m hm _ => hsettle.initial h0 m hm⟩
    · exact .inr ⟨fun he => h0 he.symm, fun m hm _ => hpos m hm⟩
  have hend := hstart.foldl hnodup hsettle (fun m hm => hl.mem_iff.mp hm)
    (.inr (hW.imp fun m hm => ⟨hl.mem_iff.mpr hm.1, hm.2⟩))
  rw [← view_deliver] at hend
  exact hend

/-- The necessary half: otherwise some order ends elsewhere. -/
theorem settles_of_allOrdersReach {M : List DesiredState} {W : UInt64}
    (hpos : ∀ m ∈ M, 1 ≤ m.seq) (hall : AllOrdersReach M W) : SettlesOn M W := by
  set ws := M.filter fun m => decide (m.policy.version = W) with hws
  have hwsW : ∀ m ∈ ws, m.policy.version = W := fun m hm => by
    simpa using (List.mem_filter.mp hm).2
  have hno : ∀ (l : List DesiredState), l.Perm ws → (l.foldl absorb (view fresh)).1 = W →
      ∀ m' ∈ M, (l.foldl absorb (view fresh)).2 < m'.seq → m'.policy.version = W := by
    intro l hl hx m' hm' hlow
    by_contra hne
    obtain ⟨order, hperm, hend⟩ := exists_order_leaving hl hm' hne hx hlow
    rw [← view_deliver] at hend
    exact hend (hall order hperm)
  refine ⟨?_, ?_⟩
  · intro h0 m' hm'
    -- the fresh store already has `W`, so the messages that carry it are all ignored
    have hsame : ws.foldl absorb (view fresh) = view fresh :=
      foldl_absorb_same fun m hm => (hwsW m hm).trans h0
    refine hno ws (List.Perm.refl _) ?_ m' hm' ?_
    · rw [hsame]
      exact h0.symm
    · rw [hsame]
      exact hpos m' hm'
  · intro m hm hmW m' hm' hlt
    have hmem : m ∈ ws := List.mem_filter.mpr ⟨hm, by simp [hmW]⟩
    -- `m` first: then `W` stands at a seq that is at most `m`'s
    have hfirst : (absorb (view fresh) m).1 = W ∧ (absorb (view fresh) m).2 ≤ m.seq := by
      unfold absorb
      split
      · exact ⟨hmW, Nat.le_refl _⟩
      · rename_i hstay
        have hsame : m.policy.version = (view fresh).1 := by
          by_contra hne
          exact hstay ⟨hpos m hm, hne⟩
        exact ⟨hsame.symm.trans hmW, Nat.zero_le _⟩
    have hsame : (ws.erase m).foldl absorb (absorb (view fresh) m) = absorb (view fresh) m :=
      foldl_absorb_same fun k hk => (hwsW k (List.mem_of_mem_erase hk)).trans hfirst.1.symm
    refine hno (m :: ws.erase m) (List.perm_cons_erase hmem).symm ?_ m' hm' ?_
    · rw [List.foldl_cons, hsame]
      exact hfirst.1
    · rw [List.foldl_cons, hsame]
      exact Nat.lt_of_le_of_lt hfirst.2 hlt

/-- **When the highest seq wins in any order.** For messages with pairwise distinct seqs from one on:
every delivery order leaves a fresh store at the policy version of the message with the highest seq,
if and only if versions settle on it. -/
theorem highest_seq_wins_iff (M : List DesiredState) (hnodup : (M.map fun m => m.seq).Nodup)
    (hpos : ∀ m ∈ M, 1 ≤ m.seq) (top : DesiredState) (htop : IsHighest top M) :
    AllOrdersReach M top.policy.version ↔ SettlesOn M top.policy.version :=
  ⟨settles_of_allOrdersReach hpos,
    fun hsettle => allOrdersReach_of_settles hnodup hpos hsettle ⟨top, htop.mem, rfl⟩⟩

/-- Three versions, one per message: every order ends at the newest. -/
def risingMessages : List DesiredState := [message 1 10 "", message 3 20 "", message 5 30 ""]

theorem highest_seq_wins_risingMessages :
    AllOrdersReach risingMessages 30 ↔ SettlesOn risingMessages 30 :=
  highest_seq_wins_iff risingMessages (by decide) (by decide) (message 5 30 "")
    ⟨by decide, by decide⟩

/-- Version 10 at seq 1 and again at seq 5, version 7 in between. -/
def reusedMessages : List DesiredState := [message 1 10 "", message 5 10 "", message 3 7 ""]

theorem reused_version_loses :
    IsHighest (message 5 10 "") reusedMessages ∧ (reusedMessages.map fun m => m.seq).Nodup ∧
      (∀ m ∈ reusedMessages, 1 ≤ m.seq) ∧
      ¬ AllOrdersReach reusedMessages (message 5 10 "").policy.version := by
  refine ⟨⟨by decide, by decide⟩, by decide, by decide, ?_⟩
  intro hall
  have hend := hall reusedMessages (List.Perm.refl _)
  revert hend
  decide

/-! ## §3 Redelivery. -/

/-- `Redelivered ms ns`: `ns` is `ms` with messages that were delivered before inserted again, at any
positions and any number of times. -/
inductive Redelivered : List DesiredState → List DesiredState → Prop
  | nil : Redelivered [] []
  | first {ms ns : List DesiredState} (d : DesiredState) :
      Redelivered ms ns → Redelivered (ms ++ [d]) (ns ++ [d])
  | again {ms ns : List DesiredState} {d : DesiredState} :
      Redelivered ms ns → d ∈ ms → Redelivered ms (ns ++ [d])

/-- The store is through with every message of a list: none of them is newer than the tracked one, and
those above `applied_seq` carry the applied version. -/
structure Settled (ms : List DesiredState) (s : StateStore) : Prop where
  tracked : ∀ d, s.desired = some d → d ∈ ms
  newest : ∀ d ∈ ms, s.isNewer d = false
  level : ∀ d ∈ ms, s.reported.appliedSeq < d.seq → d.policy.version = s.reported.policyVersion

theorem settled_fresh : Settled [] fresh where
  tracked _ h := by cases h
  newest _ h := by cases h
  level _ h := by cases h

theorem process_of_not_newer {s : StateStore} {d : DesiredState} (hnew : s.isNewer d = false)
    (hlevel : s.reported.appliedSeq < d.seq → d.policy.version = s.reported.policyVersion) :
    s.process d = s := by
  have htrack : s.track d = s := by
    unfold track
    rw [hnew]
    rfl
  have hkept : ∀ p, s.reported.diff d ≠ .applyPolicy p := by
    intro p hdiff
    obtain ⟨_, hlt, hne⟩ := diff_eq_applyPolicy_iff.mp hdiff
    exact hne (hlevel hlt)
  rw [process_kept hkept]
  exact htrack

/-- A message the store is through with changes nothing. -/
theorem Settled.again {ms : List DesiredState} {s : StateStore} (h : Settled ms s) {d : DesiredState}
    (hd : d ∈ ms) : s.process d = s :=
  process_of_not_newer (h.newest d hd) (h.level d hd)

theorem process_desired (s : StateStore) (d : DesiredState) :
    (s.process d).desired = if s.isNewer d then some d else s.desired := by
  have htrack : (s.track d).desired = if s.isNewer d then some d else s.desired := by
    unfold track
    split <;> rfl
  unfold process
  cases s.reported.diff d with
  | applyPolicy p => exact htrack
  | noop => exact htrack
  | stageOta v => exact htrack

/-- A message with a larger seq than all before it leaves a store that is through with it too. -/
theorem Settled.first {ms : List DesiredState} {s : StateStore} (h : Settled ms s) {d : DesiredState}
    (hd : ∀ m ∈ ms, m.seq < d.seq) : Settled (ms ++ [d]) (s.process d) := by
  have hnew : s.isNewer d = true := by
    unfold isNewer
    cases hdesired : s.desired with
    | none => rfl
    | some d₀ => exact decide_eq_true (hd d₀ (h.tracked d₀ hdesired))
  have hdesired : (s.process d).desired = some d := by rw [process_desired, hnew, if_pos rfl]
  have hmem : ∀ m ∈ ms ++ [d], m = d ∨ m ∈ ms ∧ m.seq < d.seq := by
    intro m hm
    rcases List.mem_append.mp hm with hm | hm
    · exact .inr ⟨hm, hd m hm⟩
    · exact .inl (List.mem_singleton.mp hm)
  refine ⟨?_, ?_, ?_⟩
  · intro d' hd'
    rw [hdesired] at hd'
    exact Option.some.inj hd' ▸ List.mem_append_right _ (List.mem_singleton.mpr rfl)
  · intro m hm
    have hle : m.seq ≤ d.seq := by
      rcases hmem m hm with rfl | ⟨_, hlt⟩
      · exact Nat.le_refl _
      · exact Nat.le_of_lt hlt
    unfold isNewer
    rw [hdesired]
    exact decide_eq_false (Nat.not_lt.mpr hle)
  · intro m hm hlt
    have hpair := process_reported s d
    split at hpair
    · -- the message was applied: nothing delivered so far is above it
      rw [(Prod.mk.inj hpair).2] at hlt
      rcases hmem m hm with rfl | ⟨_, hbelow⟩ <;> omega
    · rename_i hstay
      obtain ⟨hversion, hseq⟩ := Prod.mk.inj hpair
      rw [hseq] at hlt
      rw [hversion]
      rcases hmem m hm with rfl | ⟨hold, _⟩
      · by_contra hne
        exact hstay ⟨hlt, hne⟩
      · exact h.level m hold hlt

theorem deliver_snoc (s : StateStore) (messages : List DesiredState) (d : DesiredState) :
    s.deliver (messages ++ [d]) = (s.deliver messages).process d := by
  unfold deliver
  rw [List.foldl_append]
  rfl

/-- **At-least-once delivery has exactly-once effect.** Messages with strictly increasing seqs leave a
fresh store in the same state, in every field, as any delivery that repeats some of them. -/
theorem redelivery_changes_nothing {ms ns : List DesiredState}
    (hincreasing : ms.Pairwise fun a b => a.seq < b.seq) (h : Redelivered ms ns) :
    fresh.deliver ns = fresh.deliver ms := by
  suffices hboth : fresh.deliver ns = fresh.deliver ms ∧ Settled ms (fresh.deliver ms) from hboth.1
  induction h with
  | nil => exact ⟨rfl, settled_fresh⟩
  | first d _ ih =>
      obtain ⟨hms, _, hlast⟩ := List.pairwise_append.mp hincreasing
      obtain ⟨heq, hsettled⟩ := ih hms
      rw [deliver_snoc, deliver_snoc, heq]
      exact ⟨rfl, hsettled.first fun m hm => hlast m hm d (List.mem_singleton.mpr rfl)⟩
  | again _ hd ih =>
      obtain ⟨heq, hsettled⟩ := ih hincreasing
      rw [deliver_snoc, heq]
      exact ⟨hsettled.again hd, hsettled⟩

/-- A policy, then the same version with new software: the second message never moves `applied_seq`, and
both come again. -/
theorem redelivery_changes_nothing_software :
    fresh.deliver [message 1 7 "", message 2 7 "2.0.0", message 1 7 "", message 2 7 "2.0.0"] =
      fresh.deliver [message 1 7 "", message 2 7 "2.0.0"] :=
  redelivery_changes_nothing (by decide)
    (.again (.again (.first _ (.first _ .nil)) (by decide)) (by decide))

end Edgewarden.State
