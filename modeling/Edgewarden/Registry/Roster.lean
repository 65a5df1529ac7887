/-
# Edgewarden.Registry.Roster — the registries that can come about, and the desired state in their records.

A device record carries a copy of the desired state: version, software and seq. `register` and a heartbeat
write it; `set_policy` and `set_desired_software` change the desired state and leave every record as it is.

* §1 `History ops r`: `r` has come about through the operations `ops`, with any restarts between them. A
  restart loads the snapshot of ANY registry that has come about, so a write that failed, or one that came
  late, is covered.
* `record_in_step_iff`: a record shows the current desired state exactly when its device has registered or
  been heard from since the desired state last changed. GET /devices shows a device that has gone silent as
  one that is where it should be (`silent_device_looks_current`).
-/
import Edgewarden.Lib.Machine
import Edgewarden.Registry.History
import Edgewarden.Registry.Snapshot

namespace Edgewarden.Registry

open Edgewarden.Calls Edgewarden.State

/-! ## §1 Registries that can come about. -/

/-- Registry `r` has come about, and `ops` are the operations it knows of. -/
inductive History : List Op → Inner → Prop
  | start : History [] .empty
  | op {ops : List Op} {r : Inner} (op : Op) : History ops r → History (ops ++ [op]) (op.apply r).2
  | load {ops : List Op} {r r' : Inner} : History ops r → load (some r.file) = some r' → History ops r'

/-- The two registries want the same, at the same seq. -/
structure Inner.SameDesired (r r' : Inner) : Prop where
  policy : r'.policy = r.policy
  policySeq : r'.policySeq = r.policySeq
  desiredSoftware : r'.desiredSoftware = r.desiredSoftware

section

variable {r r' : Inner}

theorem Inner.SameDesired.refl (r : Inner) : r.SameDesired r := ⟨rfl, rfl, rfl⟩

theorem Inner.SameDesired.trans {r'' : Inner} (h : r.SameDesired r') (h' : r'.SameDesired r'') :
    r.SameDesired r'' :=
  ⟨h'.policy.trans h.policy, h'.policySeq.trans h.policySeq, h'.desiredSoftware.trans h.desiredSoftware⟩

/-- Where the seq does not move, nothing else does. -/
theorem Since.sameDesired (h : Since r r') (hseq : r'.policySeq = r.policySeq) : r.SameDesired r' :=
  ⟨(h.same hseq.symm).1, hseq, (h.same hseq.symm).2⟩

/-- What an operation makes of the desired state does not depend on the roster. -/
theorem Op.apply_sameDesired (op : Op) (h : r.SameDesired r') :
    (op.apply r).2.SameDesired (op.apply r').2 := by
  obtain ⟨hpolicy, hseq, hsoft⟩ := h
  cases op with
  | register now args => exact ⟨hpolicy, hseq, hsoft⟩
  | heartbeat now u =>
      have hkept : ∀ r : Inner, r.SameDesired (r.heartbeatUpdate now u).2 := by
        intro r
        unfold Inner.heartbeatUpdate
        split <;> exact ⟨rfl, rfl, rfl⟩
      have h₁ := hkept r
      have h₂ := hkept r'
      exact ⟨by simp [Op.apply, h₁.policy, h₂.policy, hpolicy],
        by simp [Op.apply, h₁.policySeq, h₂.policySeq, hseq],
        by simp [Op.apply, h₁.desiredSoftware, h₂.desiredSoftware, hsoft]⟩
  | setPolicy p =>
      simp only [Op.apply, Inner.setPolicy, hpolicy]
      split
      · exact ⟨hpolicy, hseq, hsoft⟩
      · exact ⟨rfl, by simp [hseq], hsoft⟩
  | setDesiredSoftware version =>
      simp only [Op.apply, Inner.setDesiredSoftware, hsoft]
      split
      · exact ⟨hpolicy, hseq, hsoft⟩
      · exact ⟨hpolicy, by simp [hseq], rfl⟩

/-- What a restart makes of a snapshot that was written. -/
theorem load_eq_restore (h : load (some r.file) = some r') : r' = r.snapshot.restore := by
  by_cases hfin : r.AllFinite
  · rw [load_file r hfin] at h
    exact (Option.some.inj h).symm
  · rw [load_file_fails r hfin] at h
    cases h

theorem restore_sameDesired (r : Inner) : r.SameDesired r.snapshot.restore := ⟨rfl, rfl, rfl⟩

/-- A record that was loaded is one that was written, with the liveness field reset. -/
theorem lookup_restore (hkeys : r.KeysMatch) {id : String} {d : DeviceRecord}
    (hd : r.snapshot.restore.devices.lookup id = some d) :
    ∃ d₀, r.devices.lookup id = some d₀ ∧ d = d₀.unseen := by
  have hd' : (collectDevices r.snapshot.devices).lookup id = some d := hd
  rw [lookup_collectDevices hkeys] at hd'
  obtain ⟨d₀, hd₀, heq⟩ := Option.map_eq_some_iff.mp hd'
  exact ⟨d₀, hd₀, heq.symm⟩

end

section

variable {ops : List Op} {r : Inner}

theorem History.keysMatch (h : History ops r) : r.KeysMatch := by
  induction h with
  | start => exact fun _ _ hd => by cases hd
  | op op _ ih => exact op.apply_keysMatch ih
  | load _ hload ih =>
      rw [load_eq_restore hload]
      intro id d hd
      obtain ⟨d₀, hd₀, rfl⟩ := lookup_restore ih hd
      exact ih id d₀ hd₀

/-- Restarts lose nothing of the desired state: it is that of the operations alone. -/
theorem History.sameDesired (h : History ops r) : (ControlPlane.after ops).inner.SameDesired r := by
  induction h with
  | start => exact .refl _
  | op op _ ih =>
      rw [after_append]
      exact op.apply_sameDesired ih
  | load _ hload ih =>
      rw [load_eq_restore hload]
      exact ih.trans (restore_sameDesired _)

/-- **A present policy has a seq.** -/
theorem History.seq_pos (h : History ops r) {p : Policy} (hp : r.policy = some p) : 0 < r.policySeq := by
  induction h with
  | start => cases hp
  | load _ hload ih =>
      rw [load_eq_restore hload] at hp ⊢
      exact ih hp
  | @op ops r op _ ih =>
      have hticks := (op.ticks r).since
      have hle := hticks.le
      by_contra hzero
      have hsame := hticks.same (by omega)
      have hpos := ih (hsame.1.symm.trans hp)
      omega

/-- The registry of a control plane that persists without errors has come about. -/
theorem history_after (ops : List Op) : History ops (ControlPlane.after ops).inner := by
  induction ops using List.reverseRecOn with
  | nil => exact .start
  | append_singleton ops op ih =>
      rw [after_append]
      exact .op op ih

/-! ## §2 Records and the desired state. -/

/-- `devices()`. -/
def Inner.records (r : Inner) : List DeviceRecord := r.devices.entries.map fun e => e.2

/-- `get(device_id)`. -/
def Inner.get (r : Inner) (id : String) : Option DeviceRecord := r.devices.lookup id

/-- The record shows the desired state of the registry. -/
structure InStep (r : Inner) (d : DeviceRecord) : Prop where
  policyVersion : d.desiredPolicyVersion = r.policyVersion
  softwareVersion : d.desiredSoftwareVersion = r.desiredSoftware
  seq : d.desiredSeq = r.policySeq

theorem InStep.congr {r' : Inner} {d : DeviceRecord} (h : r.SameDesired r') (hd : InStep r d) : InStep r' d := by
  obtain ⟨hversion, hsoft, hseq⟩ := hd
  refine ⟨?_, hsoft.trans h.desiredSoftware.symm, hseq.trans h.policySeq.symm⟩
  rw [hversion]
  simp [Inner.policyVersion, h.policy]

/-- The operation is a registration or a heartbeat of the device. -/
def Names (id : String) (_ : List Op) (op : Op) : Prop := op.device = some id

/-- The operation changes the desired state that the operations before it have left. -/
def ChangesDesired (before : List Op) (op : Op) : Prop :=
  (ControlPlane.after before).inner.Differs (op.apply (ControlPlane.after before).inner).2

/-- The device has registered or been heard from, and since then the desired state has not changed. -/
abbrev Heard (id : String) : List Op → Prop := Outstanding (Names id) ChangesDesired

/-! ## §3 The invariant. -/

/-- How a record stands to the desired state: it shows it if its device was heard, and is behind if not. -/
def Dated (ops : List Op) (r : Inner) (id : String) (d : DeviceRecord) : Prop :=
  (Heard id ops ∧ InStep r d) ∨ (¬ Heard id ops ∧ d.desiredSeq < r.policySeq)

/-- An operation of the device itself files a record that shows the desired state, and changes nothing of
it. -/
theorem Op.lookup_named {op : Op} {id : String} {d : DeviceRecord} (hop : op.device = some id)
    (hd : (op.apply r).2.devices.lookup id = some d) : InStep (op.apply r).2 d := by
  cases op with
  | register now args =>
      obtain rfl : args.deviceId = id := Option.some.inj hop
      have hnew : r.newRecord now args = d := by
        simpa [Op.apply, Inner.register, AList.lookup_insert] using hd
      rw [← hnew]
      exact ⟨rfl, rfl, rfl⟩
  | heartbeat now u =>
      obtain rfl : u.deviceId = id := Option.some.inj hop
      cases hl : r.devices.lookup u.deviceId with
      | none =>
          rw [heartbeat_unknown hl, hl] at hd
          cases hd
      | some d₀ =>
          rw [lookup_heartbeat hl] at hd
          have hsame : r.SameDesired ((Op.heartbeat now u).apply r).2 := by
            simp only [Op.apply, Inner.heartbeatUpdate, hl]
            exact ⟨rfl, rfl, rfl⟩
          rw [← Option.some.inj hd]
          exact InStep.congr hsame ⟨rfl, rfl, rfl⟩
  | setPolicy p => cases hop
  | setDesiredSoftware version => cases hop

/-- The seq of a registry moves exactly with a change of the desired state, and then by one. -/
theorem changesDesired_iff (hsame : (ControlPlane.after ops).inner.SameDesired r) (op : Op) :
    ChangesDesired ops op ↔ (op.apply r).2.policySeq = r.policySeq + 1 := by
  have hticks := (op.ticks (ControlPlane.after ops).inner).seq
  have hseq := hsame.policySeq
  have hseq' := (op.apply_sameDesired hsame).policySeq
  unfold ChangesDesired
  split at hticks <;> simp_all

/-- An operation that changes the desired state leaves the records of all other devices behind. -/
theorem Dated.op {id : String} {d : DeviceRecord} (hsame : (ControlPlane.after ops).inner.SameDesired r) (op : Op)
    (ih : ∀ d, r.devices.lookup id = some d → Dated ops r id d)
    (hd : (op.apply r).2.devices.lookup id = some d) : Dated (ops ++ [op]) (op.apply r).2 id d := by
  unfold Dated Heard
  rw [outstanding_snoc, changesDesired_iff hsame]
  by_cases hop : op.device = some id
  · exact .inl ⟨.inl hop, Op.lookup_named hop hd⟩
  · have hnot : ¬ Names id ops op := hop
    have hdated : Dated ops r id d := ih d (op.lookup_other r hop ▸ hd)
    by_cases hmoved : (op.apply r).2.policySeq = r.policySeq + 1
    · -- the record stays where it is, and the seq goes past it
      refine .inr ⟨by simp [hnot, hmoved], ?_⟩
      rcases hdated with ⟨_, hstep⟩ | ⟨_, hlt⟩
      · have := hstep.seq
        omega
      · omega
    · have hkept : (op.apply r).2.policySeq = r.policySeq := by
        have hseq := (op.ticks r).seq
        split at hseq <;> omega
      have hsame' : r.SameDesired (op.apply r).2 := (op.ticks r).since.sameDesired hkept
      rcases hdated with ⟨hheard, hstep⟩ | ⟨hheard, hlt⟩
      · exact .inl ⟨.inr ⟨hheard, hmoved⟩, hstep.congr hsame'⟩
      · exact .inr ⟨by simp [hnot, hheard], hkept ▸ hlt⟩

theorem History.dated (h : History ops r) {id : String} {d : DeviceRecord} (hd : r.devices.lookup id = some d) :
    Dated ops r id d := by
  induction h generalizing d with
  | start => cases hd
  | op op hr ih => exact Dated.op hr.sameDesired op (fun d => ih) hd
  | load hr hload ih =>
      rw [load_eq_restore hload] at hd ⊢
      obtain ⟨d₀, hd₀, rfl⟩ := lookup_restore hr.keysMatch hd
      exact (ih hd₀).imp_left fun ⟨hheard, hstep⟩ =>
        ⟨hheard, hstep.policyVersion, hstep.softwareVersion, hstep.seq⟩

theorem mem_records (hkeys : r.KeysMatch) {d : DeviceRecord} (h : d ∈ r.records ∨ ∃ id, r.get id = some d) :
    r.devices.lookup d.deviceId = some d := by
  rcases h with hmem | ⟨id, hget⟩
  · obtain ⟨⟨id, d'⟩, he, rfl⟩ := List.mem_map.mp hmem
    have hl := lookup_eq_some_iff.mpr he
    rw [hkeys id d' hl]
    exact hl
  · rw [hkeys id d hget]
    exact hget

/-- **When a record shows the current desired state.** For every registry that has come about, through any
operations and restarts, and every record that `devices()` or `get` returns: its desired version, software
and seq are the current ones if and only if its device has registered or been heard from since the desired
state last changed. -/
theorem record_in_step_iff (ops : List Op) (r : Inner) (h : History ops r) (d : DeviceRecord)
    (hd : d ∈ r.records ∨ ∃ id, r.get id = some d) : InStep r d ↔ Heard d.deviceId ops := by
  rcases h.dated (mem_records h.keysMatch hd) with ⟨hheard, hstep⟩ | ⟨hheard, hlt⟩
  · exact iff_of_true hstep hheard
  · refine iff_of_false (fun hstep => ?_) hheard
    have := hstep.seq
    omega

end

/-- A device that runs without a policy. -/
def idleEdge : RegisterArgs := ⟨"edge-1", "hw-1", "1.0.0", "0", "1.0.0"⟩

/-- Its record once it has registered with an empty registry. -/
def idleRecord : DeviceRecord := Inner.empty.newRecord 7 idleEdge

theorem record_in_step_idleEdge :
    InStep (ControlPlane.after [.register 7 idleEdge]).inner idleRecord ↔
      Heard "edge-1" [.register 7 idleEdge] :=
  record_in_step_iff _ _ (history_after [.register 7 idleEdge]) idleRecord (.inr ⟨"edge-1", by decide +kernel⟩)

/-- The device registers and goes silent, and the operator pushes version 5. The record still says that
version 0 is reported and version 0 is desired. -/
theorem silent_device_looks_current :
    let ops : List Op := [.register 7 idleEdge, .setPolicy { Policy.default with version := 5 }]
    let r := (ControlPlane.after ops).inner
    History ops r ∧ idleRecord ∈ r.records ∧ r.get "edge-1" = some idleRecord ∧
      idleRecord.reportedPolicyVersion = "0" ∧ idleRecord.desiredPolicyVersion = 0 ∧ r.policyVersion = 5 ∧
      ¬ InStep r idleRecord := by
  intro ops r
  have hversion : r.policyVersion = 5 := by decide +kernel
  refine ⟨history_after ops, by decide +kernel, by decide +kernel, rfl, rfl, hversion, fun hstep => ?_⟩
  have hshown : idleRecord.desiredPolicyVersion = 5 := hstep.policyVersion.trans hversion
  revert hshown
  decide

end Edgewarden.Registry
