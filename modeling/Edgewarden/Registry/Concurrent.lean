/-
# Edgewarden.Registry.Concurrent — persisting calls that overlap.

A call of `set_policy`, `set_desired_software` or `register` changes the registry under the write
lock, RELEASES it, takes its snapshot under the read lock, writes the temporary file and renames it.
All calls share one temporary file, and nothing orders the last three steps of two calls. So a call
that took its snapshot early can install it over a newer one.

* §1 models the calls step by step; a schedule is the list of the tasks that move.
* §2 relates every schedule to a run of `Edgewarden.Lib.WriteBehind`.
* `durable_of_forward`: the snapshot file is up to date once all calls returned, in every schedule in
  which no step replaces a snapshot by an older one. `older_snapshot_wins` is a schedule of two calls
  in which one does.
-/
import Edgewarden.Lib.WriteBehind
import Edgewarden.Registry.Snapshot
import Mathlib.Data.Finset.Insert

namespace Edgewarden.Registry

open Edgewarden.Serde Edgewarden.State

/-! ## §1 Calls and their steps. -/

/-- The calls that end in `maybe_persist`. -/
inductive Call
  | setPolicy (p : Policy)
  | setDesiredSoftware (version : String)
  | register (now : UInt64) (args : RegisterArgs)
  deriving DecidableEq, Repr

/-- What a call returns: a seq to the operator, a record to the edge. -/
inductive Reply
  | seq (n : Nat)
  | record (d : DeviceRecord)
  deriving DecidableEq, Repr

def Call.op : Call → Op
  | .setPolicy p => .setPolicy p
  | .setDesiredSoftware version => .setDesiredSoftware version
  | .register now args => .register now args

/-- The answer is fixed inside the critical section. -/
def Call.reply (call : Call) (r : Inner) : Reply :=
  match call with
  | .setPolicy p => .seq (r.setPolicy p).2.policySeq
  | .setDesiredSoftware version => .seq (r.setDesiredSoftware version).2.policySeq
  | .register now args => .record (r.register now args).1

/-- Where a call stands. -/
inductive Progress
  | waiting (call : Call)
  | mutated (reply : Reply)
  | snapshotted (reply : Reply) (snap : RegistrySnapshot)
  | written (reply : Reply) (snap : RegistrySnapshot)
  | returned (reply : Reply)
  /-- The early return of a call that changes nothing. -/
  | unchanged (reply : Reply)
  deriving DecidableEq, Repr

/-- The answer a call is going to give, from its critical section on. -/
def Progress.reply : Progress → Option Reply
  | .waiting _ => none
  | .mutated reply => some reply
  | .snapshotted reply _ => some reply
  | .written reply _ => some reply
  | .returned reply => some reply
  | .unchanged reply => some reply

/-- The answer of a call that has returned. -/
def Progress.result : Progress → Option Reply
  | .returned reply => some reply
  | .unchanged reply => some reply
  | _ => none

theorem Progress.reply_of_result {p : Progress} {reply : Reply} (h : p.result = some reply) :
    p.reply = some reply := by
  cases p with
  | returned _ => exact h
  | unchanged _ => exact h
  | waiting _ => cases h
  | mutated _ => cases h
  | snapshotted _ _ => cases h
  | written _ _ => cases h

/-- One registry, its two files, and the calls under way. -/
structure Shared (ι : Type) where
  inner : Inner
  tmp : Option Json
  file : Option Json
  calls : ι → Progress

section

variable {ι : Type} [DecidableEq ι]

def Shared.move (w : Shared ι) (t : ι) (p : Progress) : Shared ι :=
  { w with calls := Function.update w.calls t p }

/-- The next atomic step of call `t`. -/
def Shared.step (w : Shared ι) (t : ι) : Shared ι :=
  match w.calls t with
  | .waiting call =>
      if (call.op.apply w.inner).1 then
        { w with inner := (call.op.apply w.inner).2 }.move t (.mutated (call.reply w.inner))
      else w.move t (.unchanged (call.reply w.inner))
  | .mutated reply => w.move t (.snapshotted reply w.inner.snapshot)
  | .snapshotted reply snap =>
      { w with tmp := some (RegistrySnapshot.codec.encode snap) }.move t (.written reply snap)
  | .written reply _ =>
      match w.tmp with
      | some bytes => { w with file := some bytes, tmp := none }.move t (.returned reply)
      -- another call has renamed the file away: `write_snapshot` logs the error
      | none => w.move t (.returned reply)
  | .returned _ => w
  | .unchanged _ => w

def Shared.run (w : Shared ι) (schedule : List ι) : Shared ι := schedule.foldl Shared.step w

/-- A registry that was loaded from nothing or from a file that a registry wrote, and the calls made
on it. -/
def Shared.start (written : Option Inner) (r : Inner) (calls : ι → Call) : Shared ι where
  inner := r
  tmp := none
  file := written.map Inner.file
  calls t := .waiting (calls t)

end

/-! ## §2 What has to be durable. -/

/-- What a restart must not lose. -/
structure Durable where
  policy : Option Policy
  policySeq : Nat
  desiredSoftware : String
  deviceIds : Finset String
  deriving DecidableEq

def Inner.durable (r : Inner) : Durable where
  policy := r.policy
  policySeq := r.policySeq
  desiredSoftware := r.desiredSoftware
  deviceIds := r.devices.keys.toFinset

/-- A snapshot is not newer than another: its seq is not larger and it has no device that the other
lacks. -/
instance : Preorder Durable where
  le a b := a.policySeq ≤ b.policySeq ∧ a.deviceIds ⊆ b.deviceIds
  le_refl a := ⟨Nat.le_refl _, Finset.Subset.refl _⟩
  le_trans a b c hab hbc := ⟨Nat.le_trans hab.1 hbc.1, Finset.Subset.trans hab.2 hbc.2⟩

theorem mem_deviceIds {r : Inner} {id : String} :
    id ∈ r.durable.deviceIds ↔ (r.devices.lookup id).isSome = true := by
  show id ∈ r.devices.keys.toFinset ↔ _
  rw [List.mem_toFinset, AList.lookup_isSome]
  exact AList.mem_keys.symm

theorem restore_durable {r : Inner} (hkeys : r.KeysMatch) :
    r.snapshot.restore.durable = r.durable := by
  have hids : r.snapshot.restore.durable.deviceIds = r.durable.deviceIds := by
    ext id
    rw [mem_deviceIds, mem_deviceIds]
    show ((collectDevices r.snapshot.devices).lookup id).isSome = true ↔ _
    rw [lookup_collectDevices hkeys, Option.isSome_map]
  show Durable.mk _ _ _ r.snapshot.restore.durable.deviceIds = _
  rw [hids]
  rfl

/-- What a file holds once it is loaded. -/
def Holds (file : Option Json) (v : Durable) : Prop := ∃ r, load file = some r ∧ r.durable = v

theorem Holds.unique {file : Option Json} {v v' : Durable} (h : Holds file v) (h' : Holds file v') :
    v = v' := by
  obtain ⟨r, hr, rfl⟩ := h
  obtain ⟨r', hr', rfl⟩ := h'
  rw [Option.some.inj (hr.symm.trans hr')]

/-- A registry whose snapshot loads. -/
structure Inner.Storable (r : Inner) : Prop where
  keys : r.KeysMatch
  finite : r.AllFinite

theorem Inner.Storable.holds {r : Inner} (h : r.Storable) :
    Holds (some (RegistrySnapshot.codec.encode r.snapshot)) r.durable :=
  ⟨_, load_file r h.finite, restore_durable h.keys⟩

/-- What `load` builds can be stored again. -/
theorem collectDevices_storable {records : List DeviceRecord}
    (hfin : records.all (fun d => d.cpuUsage.isFinite) = true) (id : String) (d : DeviceRecord)
    (hd : (collectDevices records).lookup id = some d) :
    d.deviceId = id ∧ d.cpuUsage.isFinite = true := by
  have hfold : ∀ (l : List DeviceRecord) (acc : Devices),
      (∀ e ∈ l, e.cpuUsage.isFinite = true) →
      (∀ id d, acc.lookup id = some d → d.deviceId = id ∧ d.cpuUsage.isFinite = true) →
      ∀ id d, (l.foldl (fun (m : Devices) e => m.insert e.deviceId e.unseen) acc).lookup id = some d →
        d.deviceId = id ∧ d.cpuUsage.isFinite = true := by
    intro l
    induction l with
    | nil => exact fun acc _ hacc => hacc
    | cons e l ih =>
        intro acc hl hacc
        refine ih _ (fun e' he' => hl e' (List.mem_cons_of_mem _ he')) ?_
        intro id d hd
        rw [lookup_insert_cases] at hd
        split at hd
        · rename_i hid
          cases hd
          exact ⟨hid.symm, hl e List.mem_cons_self⟩
        · exact hacc id d hd
  refine hfold records ∅ (fun e he => List.all_eq_true.mp hfin e he) ?_ id d hd
  intro _ _ h
  cases h

theorem storable_of_load {written : Option Inner} {r : Inner}
    (h : load (written.map Inner.file) = some r) : r.Storable := by
  cases written with
  | none =>
      cases h
      exact ⟨fun _ _ h => (by cases h), fun _ _ h => (by cases h)⟩
  | some r₀ =>
      by_cases hfin : r₀.AllFinite
      · have hr : r₀.snapshot.restore = r := Option.some.inj ((load_file r₀ hfin).symm.trans h)
        subst hr
        have hall := collectDevices_storable (all_finite_iff.mpr hfin)
        exact ⟨fun id d hd => (hall id d hd).1, fun id d hd => (hall id d hd).2⟩
      · cases (load_file_fails r₀ hfin).symm.trans h

/-! ## §3 What a call does to it. -/

/-- A change of the registry: an operator call raises the seq, a registration adds a device. -/
def Changes (m m' : Durable) : Prop :=
  (m'.policySeq = m.policySeq + 1 ∧ m'.deviceIds = m.deviceIds) ∨
    (m'.policySeq = m.policySeq ∧ m'.policy = m.policy ∧ m'.desiredSoftware = m.desiredSoftware ∧
      m.deviceIds ⊆ m'.deviceIds)

theorem Changes.le {m m' : Durable} (h : Changes m m') : m ≤ m' := by
  rcases h with ⟨hseq, hids⟩ | ⟨hseq, _, _, hids⟩
  · exact ⟨by omega, hids ▸ Finset.Subset.refl _⟩
  · exact ⟨by omega, hids⟩

/-- `c` was the durable part at some time before: where the seq is the same, so is what it counts. -/
structure Earlier (c m : Durable) : Prop where
  le : c ≤ m
  same : c.policySeq = m.policySeq → c.policy = m.policy ∧ c.desiredSoftware = m.desiredSoftware

theorem Earlier.refl (m : Durable) : Earlier m m := ⟨le_refl m, fun _ => ⟨rfl, rfl⟩⟩

theorem Earlier.change {c m m' : Durable} (h : Earlier c m) (hm : Changes m m') : Earlier c m' := by
  refine ⟨le_trans h.le hm.le, ?_⟩
  intro heq
  have hle := h.le.1
  rcases hm with ⟨hseq, _⟩ | ⟨hseq, hpolicy, hsoft, _⟩
  · omega
  · obtain ⟨hp, hs⟩ := h.same (by omega)
    exact ⟨hp.trans hpolicy.symm, hs.trans hsoft.symm⟩

/-- A copy of an earlier registry that is as new as the present one is the present one. -/
theorem Earlier.eq_of_le {c m : Durable} (h : Earlier c m) (hle : m ≤ c) : c = m := by
  have hseq : c.policySeq = m.policySeq := Nat.le_antisymm h.le.1 hle.1
  have hids : c.deviceIds = m.deviceIds := Finset.Subset.antisymm h.le.2 hle.2
  obtain ⟨hpolicy, hsoft⟩ := h.same hseq
  cases c
  cases m
  simp only at hseq hids hpolicy hsoft
  rw [hseq, hids, hpolicy, hsoft]

theorem Call.changes (call : Call) {r : Inner} (h : (call.op.apply r).1 = true) :
    Changes r.durable (call.op.apply r).2.durable := by
  have heff := call.op.effect r
  generalize call.op = op at heff h ⊢
  generalize op.apply r = result at heff h
  cases heff with
  | kept _ => cases h
  | refreshed now u d _ => cases h
  | policy p _ => exact .inl ⟨rfl, rfl⟩
  | software version _ => exact .inl ⟨rfl, rfl⟩
  | registered now args =>
      refine .inr ⟨rfl, rfl, rfl, ?_⟩
      intro id hid
      rw [mem_deviceIds] at hid ⊢
      show ((r.devices.insert args.deviceId _).lookup id).isSome = true
      rw [lookup_insert_cases]
      split
      · rfl
      · exact hid

theorem Call.storable (call : Call) {r : Inner} (h : r.Storable) :
    (call.op.apply r).2.Storable := by
  refine ⟨call.op.apply_keysMatch h.keys, ?_⟩
  have heff := call.op.effect r
  generalize hop : call.op = op at heff ⊢
  generalize op.apply r = result at heff
  cases heff with
  | kept _ => exact h.finite
  | policy p _ => exact h.finite
  | software version _ => exact h.finite
  | refreshed now u d _ => cases call <;> cases hop
  | registered now args =>
      intro id d hd
      have hd' : (r.devices.insert args.deviceId (r.newRecord now args)).lookup id = some d := hd
      rw [lookup_insert_cases] at hd'
      split at hd'
      · cases hd'
        exact isFinite_zero
      · exact h.finite id d hd'

/-- The seq in an answer, if there is one, is not above `n`. -/
def Reply.AtMost (reply : Reply) (n : Nat) : Prop := ∀ k, reply = .seq k → k ≤ n

theorem Call.reply_atMost (call : Call) (r : Inner) :
    (call.reply r).AtMost (call.op.apply r).2.durable.policySeq := by
  intro k hk
  cases call with
  | setPolicy p => exact Nat.le_of_eq (Reply.seq.inj hk).symm
  | setDesiredSoftware version => exact Nat.le_of_eq (Reply.seq.inj hk).symm
  | register now args => cases hk

theorem Call.unchanged_reply (call : Call) {r : Inner} (h : (call.op.apply r).1 = false) :
    (call.op.apply r).2.durable.policySeq = r.durable.policySeq :=
  (call.op.apply_sameRoster h).policySeq

/-! ## §4 Every schedule is a run of writers behind one file. -/

/-- Where a call stands, seen as a task. -/
inductive TaskRel : Progress → WriteBehind.Phase Durable → Prop
  | waiting (call : Call) : TaskRel (.waiting call) .idle
  | mutated {reply : Reply} {seen : Durable} : reply.AtMost seen.policySeq →
      TaskRel (.mutated reply) (.changed seen)
  | snapshotted {reply : Reply} {seen : Durable} {r : Inner} : reply.AtMost seen.policySeq →
      r.Storable → TaskRel (.snapshotted reply r.snapshot) (.copied seen r.durable)
  | written {reply : Reply} {seen c : Durable} (snap : RegistrySnapshot) :
      reply.AtMost seen.policySeq → TaskRel (.written reply snap) (.staged seen c)
  | returned {reply : Reply} {seen : Durable} : reply.AtMost seen.policySeq →
      TaskRel (.returned reply) (.done (some seen))
  | unchanged (reply : Reply) : TaskRel (.unchanged reply) (.done none)

/-- A call that has returned is a task that is through. -/
theorem TaskRel.done {p : Progress} {q : WriteBehind.Phase Durable} (h : TaskRel p q)
    (hres : p.result.isSome = true) : ∃ m, q = .done m := by
  cases h with
  | returned _ => exact ⟨_, rfl⟩
  | unchanged _ => exact ⟨_, rfl⟩
  | waiting _ => cases hres
  | mutated _ => cases hres
  | snapshotted _ _ => cases hres
  | written _ _ => cases hres

section

variable {ι : Type} [DecidableEq ι]

structure Sim (w : Shared ι) (a : WriteBehind.State Durable ι) : Prop where
  mem : a.mem = w.inner.durable
  storable : w.inner.Storable
  tmp : (w.tmp = none ∧ a.tmp = none) ∨
    ∃ bytes v, w.tmp = some bytes ∧ a.tmp = some v ∧ Holds (some bytes) v
  file : Holds w.file a.file
  tasks : ∀ t, TaskRel (w.calls t) (a.phase t)
  answered : ∀ t reply, (w.calls t).reply = some reply → reply.AtMost w.inner.policySeq

/-- `new` may replace `old`: it is not older. -/
def NotOlder (old new : Option Json) : Prop := ∀ v v', Holds old v → Holds new v' → v ≤ v'

/-- The next step of call `t` replaces no snapshot by an older one: neither the one in the temporary
file nor the one at the path. -/
structure Forward (w : Shared ι) (t : ι) : Prop where
  write : ∀ reply snap bytes, w.calls t = .snapshotted reply snap → w.tmp = some bytes →
    NotOlder (some bytes) (some (RegistrySnapshot.codec.encode snap))
  rename : ∀ reply snap bytes, w.calls t = .written reply snap → w.tmp = some bytes →
    NotOlder w.file (some bytes)

theorem Shared.move_same (w : Shared ι) (t : ι) (p : Progress) : (w.move t p).calls t = p := by
  show Function.update w.calls t p t = p
  rw [Function.update_self]

theorem Shared.move_other (w : Shared ι) {t u : ι} (p : Progress) (h : u ≠ t) :
    (w.move t p).calls u = w.calls u := by
  show Function.update w.calls t p u = w.calls u
  rw [Function.update_of_ne h]

/-- Both sides move the same task. -/
theorem tasks_move {w : Shared ι} {a : WriteBehind.State Durable ι} {t : ι} {p : Progress}
    {q : WriteBehind.Phase Durable} (h : ∀ u, TaskRel (w.calls u) (a.phase u)) (hpq : TaskRel p q) :
    ∀ u, TaskRel ((w.move t p).calls u) ((a.move t q).phase u) := by
  intro u
  by_cases hu : u = t
  · rw [hu, Shared.move_same, WriteBehind.State.move_same]
    exact hpq
  · rw [Shared.move_other w p hu, WriteBehind.State.move_other a q hu]
    exact h u

/-- The answers decided so far, after task `t` moved to `p`. -/
theorem answered_move {w : Shared ι} {n : Nat} {t : ι} {p : Progress}
    (h : ∀ u reply, (w.calls u).reply = some reply → reply.AtMost n)
    (hp : ∀ reply, p.reply = some reply → reply.AtMost n) :
    ∀ u reply, ((w.move t p).calls u).reply = some reply → reply.AtMost n := by
  intro u reply hu
  by_cases hut : u = t
  · rw [hut, Shared.move_same] at hu
    exact hp reply hu
  · rw [Shared.move_other w p hut] at hu
    exact h u reply hu

section Steps

variable {w : Shared ι} {a : WriteBehind.State Durable ι} {t : ι}

/-- What the task of a call may do in a step, with the call's own step. -/
abbrev Matched (w : Shared ι) (a : WriteBehind.State Durable ι) (t : ι) : Prop :=
  ∃ a', (a' = a ∨ WriteBehind.Step Changes a a') ∧ Sim (w.step t) a'

omit [DecidableEq ι] in
/-- The task of a call, by the call's own progress, and the answer the call has decided. -/
theorem Sim.task (h : Sim w a) {p : Progress} (hcall : w.calls t = p) :
    ∃ phase, a.phase t = phase ∧ TaskRel p phase ∧
      ∀ reply, p.reply = some reply → reply.AtMost w.inner.policySeq := by
  subst hcall
  exact ⟨_, rfl, h.tasks t, h.answered t⟩

/-- The critical section: a change, or nothing to do. -/
theorem Sim.enter (h : Sim w a) {call : Call} (hcall : w.calls t = .waiting call) : Matched w a t := by
  obtain ⟨phase, hphase, htask, _⟩ := h.task hcall
  unfold Matched Shared.step
  rw [hcall]
  cases htask
  by_cases hchanged : (call.op.apply w.inner).1 = true
  · have hch := call.changes hchanged
    refine ⟨_, .inr (.change t (call.op.apply w.inner).2.durable hphase (h.mem ▸ hch)), ?_⟩
    simp only [if_pos hchanged]
    refine ⟨rfl, call.storable h.storable, h.tmp, h.file,
      tasks_move h.tasks (.mutated (call.reply_atMost w.inner)), ?_⟩
    refine answered_move (w := { w with inner := (call.op.apply w.inner).2 }) ?_ ?_
    · intro u reply hu k hk
      exact Nat.le_trans (h.answered u reply hu k hk) hch.le.1
    · intro reply hreply
      cases hreply
      exact call.reply_atMost w.inner
  · have hsame : (call.op.apply w.inner).1 = false := Bool.eq_false_iff.mpr hchanged
    refine ⟨_, .inr (.skip t hphase), ?_⟩
    simp only [if_neg hchanged]
    refine ⟨h.mem, h.storable, h.tmp, h.file, tasks_move h.tasks (.unchanged _),
      answered_move h.answered ?_⟩
    intro reply hreply
    cases hreply
    have hle := call.reply_atMost w.inner
    rw [call.unchanged_reply hsame] at hle
    exact hle

/-- The snapshot is taken under the lock. -/
theorem Sim.copy (h : Sim w a) {reply : Reply} (hcall : w.calls t = .mutated reply) : Matched w a t := by
  obtain ⟨phase, hphase, htask, hans⟩ := h.task hcall
  unfold Matched Shared.step
  rw [hcall]
  cases htask with
  | mutated hseen =>
      refine ⟨_, .inr (.copy t _ hphase), h.mem, h.storable, h.tmp, h.file, ?_,
        answered_move h.answered hans⟩
      rw [h.mem]
      exact tasks_move h.tasks (.snapshotted hseen h.storable)

/-- The temporary file is written, over one that is not newer. -/
theorem Sim.stage (h : Sim w a) (hfwd : Forward w t) {reply : Reply} {snap : RegistrySnapshot}
    (hcall : w.calls t = .snapshotted reply snap) : Matched w a t := by
  obtain ⟨phase, hphase, htask, hans⟩ := h.task hcall
  unfold Matched Shared.step
  rw [hcall]
  cases htask with
  | @snapshotted _ seen r hseen hr =>
      have hnew : ∀ x, a.tmp = some x → x ≤ r.durable := by
        intro x hx
        rcases h.tmp with ⟨_, hnone⟩ | ⟨bytes, v, hbytes, hv, hholds⟩
        · cases hnone.symm.trans hx
        · have hvx : v = x := Option.some.inj (hv.symm.trans hx)
          exact hfwd.write reply r.snapshot bytes hcall hbytes x r.durable (hvx ▸ hholds) hr.holds
      exact ⟨_, .inr (.stage t seen r.durable hphase hnew), h.mem, h.storable,
        .inr ⟨_, _, rfl, rfl, hr.holds⟩, h.file, tasks_move h.tasks (.written _ hseen),
        answered_move h.answered hans⟩

/-- The temporary file is renamed, if it is still there, over one that is not newer. -/
theorem Sim.publish (h : Sim w a) (hfwd : Forward w t) {reply : Reply} {snap : RegistrySnapshot}
    (hcall : w.calls t = .written reply snap) : Matched w a t := by
  obtain ⟨phase, hphase, htask, hans⟩ := h.task hcall
  unfold Matched Shared.step
  rw [hcall]
  cases htask with
  | @written _ seen c _ hseen =>
      rcases h.tmp with ⟨hnone, hanone⟩ | ⟨bytes, v, hbytes, hv, hholds⟩
      · rw [hnone]
        exact ⟨_, .inr (.missing t seen c hphase hanone), h.mem, h.storable,
          .inl ⟨hnone, hanone⟩, h.file, tasks_move h.tasks (.returned hseen),
          answered_move h.answered hans⟩
      · rw [hbytes]
        have hnew : a.file ≤ v := hfwd.rename reply snap bytes hcall hbytes _ _ h.file hholds
        exact ⟨_, .inr (.publish t seen c v hphase hv hnew), h.mem, h.storable,
          .inl ⟨rfl, rfl⟩, hholds, tasks_move h.tasks (.returned hseen),
          answered_move h.answered hans⟩

/-- **One step of a call is at most one step of its task.** -/
theorem Sim.step (h : Sim w a) (t : ι) (hfwd : Forward w t) :
    ∃ a', (a' = a ∨ WriteBehind.Step Changes a a') ∧ Sim (w.step t) a' := by
  have hreturned : w.step t = w → Matched w a t := by
    intro hstep
    refine ⟨a, .inl rfl, ?_⟩
    rw [hstep]
    exact h
  cases hcall : w.calls t with
  | waiting call => exact h.enter hcall
  | mutated reply => exact h.copy hcall
  | snapshotted reply snap => exact h.stage hfwd hcall
  | written reply snap => exact h.publish hfwd hcall
  | returned reply => exact hreturned (by simp [Shared.step, hcall])
  | unchanged reply => exact hreturned (by simp [Shared.step, hcall])

end Steps

/-- Every step of the schedule replaces no snapshot by an older one. -/
def ForwardRun (w : Shared ι) (schedule : List ι) : Prop :=
  ∀ pre t post, schedule = pre ++ t :: post → Forward (w.run pre) t

theorem Sim.run {w : Shared ι} {a : WriteBehind.State Durable ι} (h : Sim w a) (schedule : List ι)
    (hfwd : ForwardRun w schedule) :
    ∃ a', WriteBehind.Run Changes a a' ∧ Sim (w.run schedule) a' := by
  induction schedule using List.reverseRecOn with
  | nil => exact ⟨a, .refl, h⟩
  | append_singleton schedule t ih =>
      have hbefore : ForwardRun w schedule := by
        intro pre u post heq
        exact hfwd pre u (post ++ [t]) (by rw [heq]; simp)
      obtain ⟨a₁, hrun, hsim⟩ := ih hbefore
      obtain ⟨a₂, hstep, hsim'⟩ := hsim.step t (hfwd schedule t [] rfl)
      have hlast : w.run (schedule ++ [t]) = (w.run schedule).step t := by
        unfold Shared.run
        rw [List.foldl_append]
        rfl
      rw [hlast]
      rcases hstep with rfl | hstep
      · exact ⟨a₂, hrun, hsim'⟩
      · exact ⟨a₂, .tail hrun hstep, hsim'⟩

/-- The tasks before the first step. -/
def initialTasks (ι : Type) (v : Durable) : WriteBehind.State Durable ι := ⟨v, none, v, fun _ => .idle⟩

omit [DecidableEq ι] in
theorem sim_start {written : Option Inner} {r : Inner}
    (hload : load (written.map Inner.file) = some r) (calls : ι → Call) :
    Sim (Shared.start written r calls) (initialTasks ι r.durable) where
  mem := rfl
  storable := storable_of_load hload
  tmp := .inl ⟨rfl, rfl⟩
  file := ⟨r, hload, rfl⟩
  tasks t := .waiting (calls t)
  answered _ _ h := by cases h

/-! ## §5 Overlapping calls. -/

/-- Every call has returned. -/
def AllReturned (w : Shared ι) : Prop := ∀ t, ((w.calls t).result).isSome = true

/-- **Overlapping calls are durable as long as no snapshot replaces a newer one.** At any time the seq
on disk is not below a seq that a call returned after persisting; once all calls have returned, a
restart restores what is in memory, and no returned seq is above it. -/
theorem durable_of_forward (written : Option Inner) (r : Inner)
    (hload : load (written.map Inner.file) = some r) (calls : ι → Call) (schedule : List ι)
    (hfwd : ForwardRun (Shared.start written r calls) schedule) :
    ∃ r', load ((Shared.start written r calls).run schedule).file = some r' ∧
      (∀ t n, ((Shared.start written r calls).run schedule).calls t = .returned (.seq n) →
        n ≤ r'.policySeq) ∧
      (AllReturned ((Shared.start written r calls).run schedule) →
        r'.durable = ((Shared.start written r calls).run schedule).inner.durable ∧
        ∀ t n, (((Shared.start written r calls).run schedule).calls t).result = some (.seq n) →
          n ≤ r'.policySeq) := by
  obtain ⟨a, hrun, hsim⟩ := (sim_start hload calls).run schedule hfwd
  generalize (Shared.start written r calls).run schedule = w at hsim
  have hinit : WriteBehind.Initial (initialTasks ι r.durable) := ⟨fun _ => rfl, rfl, rfl⟩
  have hle : ∀ m m', Changes m m' → m ≤ m' := fun _ _ hm => hm.le
  obtain ⟨r', hr', hfile⟩ := hsim.file
  refine ⟨r', hr', ?_, ?_⟩
  · intro t n ht
    have htask := hsim.tasks t
    rw [ht] at htask
    generalize hphase : a.phase t = phase at htask
    cases htask with
    | returned hseen =>
        have hkept := hrun.promise_kept hle hinit hphase
        rw [← hfile] at hkept
        exact Nat.le_trans (hseen n rfl) hkept.1
  · intro hall
    have hdone : ∀ t, ∃ m, a.phase t = .done m := fun t => (hsim.tasks t).done (hall t)
    have hold : Earlier a.file a.mem :=
      (hrun.inherits Earlier.refl (fun _ _ _ hc hm => hc.change hm) hinit).file
    have heq : r'.durable = w.inner.durable := by
      rw [hfile, ← hsim.mem]
      exact hold.eq_of_le (hrun.settled hle hinit hdone)
    refine ⟨heq, ?_⟩
    intro t n ht
    have hseq : r'.policySeq = w.inner.policySeq := congrArg Durable.policySeq heq
    rw [hseq]
    exact hsim.answered t _ (Progress.reply_of_result ht) n rfl

omit [DecidableEq ι] in
theorem Forward.of_tmp_none {w : Shared ι} {t : ι} (h : w.tmp = none) : Forward w t where
  write _ _ _ _ hbytes := by cases h.symm.trans hbytes
  rename _ _ _ _ hbytes := by cases h.symm.trans hbytes

omit [DecidableEq ι] in
theorem Forward.of_written {w : Shared ι} {t : ι} {reply : Reply} {snap : RegistrySnapshot}
    (hcall : w.calls t = .written reply snap) (h : NotOlder w.file w.tmp) : Forward w t where
  write _ _ _ hcall' _ := by cases hcall.symm.trans hcall'
  rename _ _ _ _ hbytes := hbytes ▸ h

theorem forwardRun_nil (w : Shared ι) : ForwardRun w [] := by
  intro pre t post h
  simp at h

theorem forwardRun_cons {w : Shared ι} {t : ι} {rest : List ι} (h : Forward w t)
    (hrest : ForwardRun (w.step t) rest) : ForwardRun w (t :: rest) := by
  intro pre u post heq
  cases pre with
  | nil =>
      cases heq
      exact h
  | cons s pre =>
      cases heq
      exact hrest pre u post rfl

end

/-- Two calls on an empty registry: a registration and a policy. -/
def twoCalls : Bool → Call
  | false => .register 7 (.named "d1")
  | true => .setPolicy Policy.default

/-- Both change the registry before either takes its snapshot. -/
def overlapping : List Bool := [false, true, false, false, false, true, true, true]

theorem durable_of_forward_overlapping :
    ∃ r', load ((Shared.start none .empty twoCalls).run overlapping).file = some r' ∧
      (∀ t n, ((Shared.start none .empty twoCalls).run overlapping).calls t = .returned (.seq n) →
        n ≤ r'.policySeq) ∧
      (AllReturned ((Shared.start none .empty twoCalls).run overlapping) →
        r'.durable = ((Shared.start none .empty twoCalls).run overlapping).inner.durable ∧
        ∀ t n, (((Shared.start none .empty twoCalls).run overlapping).calls t).result =
          some (.seq n) → n ≤ r'.policySeq) := by
  refine durable_of_forward none .empty rfl twoCalls overlapping ?_
  -- the temporary file exists only right before each of the two renames
  refine forwardRun_cons (.of_tmp_none rfl) (forwardRun_cons (.of_tmp_none rfl)
    (forwardRun_cons (.of_tmp_none rfl) (forwardRun_cons (.of_tmp_none rfl)
    (forwardRun_cons (.of_written rfl ?_) (forwardRun_cons (.of_tmp_none rfl)
    (forwardRun_cons (.of_tmp_none rfl) (forwardRun_cons (.of_written rfl ?_)
    (forwardRun_nil _))))))))
  · intro v v' hv _
    obtain ⟨r, hr, rfl⟩ := hv
    cases hr
    exact ⟨Nat.zero_le _, Finset.empty_subset _⟩
  · intro v v' hv hv'
    exact hv.unique hv' ▸ le_refl v

/-- Two policies, and the schedule in which the first call takes its snapshot before the second call
and installs it after. -/
def twoPolicies : Bool → Call
  | false => .setPolicy { Policy.default with version := 1 }
  | true => .setPolicy { Policy.default with version := 2 }

def overtaken : List Bool := [false, false, true, true, true, true, false, false]

/-- **An older snapshot wins**: both calls have returned, the operator holds seq 2, and a restart comes
back with seq 1 and the first policy. -/
theorem older_snapshot_wins :
    (((Shared.start none .empty twoPolicies).run overtaken).calls false).result = some (.seq 1) ∧
      (((Shared.start none .empty twoPolicies).run overtaken).calls true).result = some (.seq 2) ∧
      ((Shared.start none .empty twoPolicies).run overtaken).inner.policySeq = 2 ∧
      (load ((Shared.start none .empty twoPolicies).run overtaken).file).map
        (fun r => (r.policySeq, r.policyVersion)) = some (1, 1) := by
  decide +kernel

end Edgewarden.Registry
