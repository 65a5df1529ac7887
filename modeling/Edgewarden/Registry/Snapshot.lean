/-
# Edgewarden.Registry.Snapshot — what a restart restores.

`loads_back_iff`: after any sequence of operations, loading the snapshot that the last persisting
mutation wrote restores the roster and the desired state IF AND ONLY IF every record that mutation
wrote had a finite `cpu_usage`, that is, the latest heartbeat of every registered device did.
Heartbeats put the edge's own `f64` into the record; a later, unrelated mutation flushes it, and a NaN
or an infinity becomes `null`, which `load` refuses.
-/
import Edgewarden.Registry.Core
import Mathlib.Data.List.Induction

namespace Edgewarden.Registry

open Edgewarden.Serde Edgewarden.State

/-! ## §1 Round trip of one record, of a policy, of a snapshot. -/

/-- The members of a written record, read back one by one. -/
theorem toJson_members (d : DeviceRecord) :
    Codec.string.get d.toJson "device_id" = some d.deviceId ∧
    Codec.string.get d.toJson "hardware_id" = some d.hardwareId ∧
    Codec.string.get d.toJson "software_version" = some d.softwareVersion ∧
    Codec.string.get d.toJson "reported_policy_version" = some d.reportedPolicyVersion ∧
    Codec.string.get d.toJson "reported_software_version" = some d.reportedSoftwareVersion ∧
    Codec.u64.get d.toJson "desired_policy_version" = some d.desiredPolicyVersion ∧
    Codec.string.get d.toJson "desired_software_version" = some d.desiredSoftwareVersion ∧
    Codec.nat.get d.toJson "desired_seq" = some d.desiredSeq ∧
    Codec.i32.get d.toJson "health" = some d.health ∧
    Codec.u64.get d.toJson "last_seen_secs" = some d.lastSeenSecs ∧
    Codec.u64.get d.toJson "uptime_secs" = some d.uptimeSecs ∧
    Codec.f64.get d.toJson "cpu_usage" = (if d.cpuUsage.isFinite then some d.cpuUsage else none) ∧
    Codec.u64.get d.toJson "memory_bytes" = some d.memoryBytes ∧
    Codec.u64.get d.toJson "active_connections" = some d.activeConnections := by
  simp only [DeviceRecord.toJson, Codec.get_head, Codec.get_tail, ne_eq, String.reduceEq,
    not_false_eq_true, Codec.string_survives, Codec.nat_survives, Codec.u64_survives,
    Codec.i32_survives, Codec.f64_decode_encode, and_self]

theorem deviceRecord_decode_encode (d : DeviceRecord) :
    DeviceRecord.codec.decode (DeviceRecord.codec.encode d) =
      if d.cpuUsage.isFinite then some d else none := by
  show DeviceRecord.ofJson d.toJson = _
  unfold DeviceRecord.ofJson
  by_cases h : d.cpuUsage.isFinite = true
  · simp only [toJson_members, if_pos h, Option.bind_eq_bind, Option.bind_some, Option.pure_def]
  · simp only [toJson_members, if_neg h, Option.bind_eq_bind, Option.bind_some, Option.bind_none]

theorem policyCodec_survives (p : Policy) : policyCodec.Survives p := by
  simp [Codec.Survives, policyCodec, Codec.get_tail]

theorem snapshot_decode_encode (s : RegistrySnapshot) :
    RegistrySnapshot.codec.decode (RegistrySnapshot.codec.encode s) =
      if s.devices.all (fun d => d.cpuUsage.isFinite) then some s else none := by
  have hpolicy : (Codec.option policyCodec).decode ((Codec.option policyCodec).encode s.policy) =
      some s.policy :=
    Codec.option_survives (fun _ h => by cases h) policyCodec_survives s.policy
  have hdevices := Codec.list_decode_encode deviceRecord_decode_encode s.devices
  by_cases h : s.devices.all (fun d => d.cpuUsage.isFinite) = true
  · simp [RegistrySnapshot.codec, Codec.get_tail, Codec.getOr_tail, hpolicy, hdevices, h]
  · simp [RegistrySnapshot.codec, Codec.get_tail, Codec.getOr_tail, hpolicy, hdevices, h]

/-! ## §2 What `load` collects. -/

/-- Every record is filed under its own id. -/
def Inner.KeysMatch (r : Inner) : Prop := ∀ id d, r.devices.lookup id = some d → d.deviceId = id

/-- Every record can be written and read back. -/
def Inner.AllFinite (r : Inner) : Prop :=
  ∀ id d, r.devices.lookup id = some d → d.cpuUsage.isFinite = true

theorem lookup_eq_some_iff {m : Devices} {id : String} {d : DeviceRecord} :
    m.lookup id = some d ↔ (⟨id, d⟩ : Sigma fun _ : String => DeviceRecord) ∈ m.entries :=
  AList.mem_lookup_iff

/-- Inserting records with distinct ids one by one files each under its id. -/
theorem lookup_foldl_insert {l : List DeviceRecord} (hnodup : (l.map fun d => d.deviceId).Nodup)
    (acc : Devices) (id : String) :
    (l.foldl (fun (m : Devices) d => m.insert d.deviceId d.unseen) acc).lookup id =
      ((l.find? fun d => d.deviceId = id).map DeviceRecord.unseen).or (acc.lookup id) := by
  induction l generalizing acc with
  | nil => rfl
  | cons d l ih =>
      rw [List.map_cons, List.nodup_cons] at hnodup
      rw [List.foldl_cons, ih hnodup.2]
      by_cases h : d.deviceId = id
      · -- no later record has this id
        have hnone : l.find? (fun d => d.deviceId = id) = none := by
          rw [List.find?_eq_none]
          intro e he heq
          refine hnodup.1 (List.mem_map.mpr ⟨e, he, ?_⟩)
          rw [of_decide_eq_true heq, h]
        rw [hnone, List.find?_cons_of_pos (by simp [h]), ← h, AList.lookup_insert]
        rfl
      · rw [List.find?_cons_of_neg (by simp [h]), AList.lookup_insert_ne (fun he => h he.symm)]

/-- The record found in a keyed list is the one looked up. -/
theorem find_entries {l : List (Sigma fun _ : String => DeviceRecord)}
    (hkeys : ∀ e ∈ l, e.2.deviceId = e.1) (id : String) :
    (l.map fun e => e.2).find? (fun d => d.deviceId = id) = l.dlookup id := by
  induction l with
  | nil => rfl
  | cons e l ih =>
      obtain ⟨k, d⟩ := e
      have hk : d.deviceId = k := hkeys ⟨k, d⟩ List.mem_cons_self
      have htail := ih fun e he => hkeys e (List.mem_cons_of_mem _ he)
      rw [List.map_cons]
      by_cases h : k = id
      · subst h
        rw [List.find?_cons_of_pos (by simp [hk]), List.dlookup_cons_eq]
      · rw [List.find?_cons_of_neg (by simp [hk, h]), htail, List.dlookup_cons_ne]
        exact fun he => h he.symm

/-- **What a restart restores of the device map**: every record, with the liveness field reset. -/
theorem lookup_collectDevices {r : Inner} (hkeys : r.KeysMatch) (id : String) :
    (collectDevices r.snapshot.devices).lookup id =
      (r.devices.lookup id).map DeviceRecord.unseen := by
  have hmatch : ∀ e ∈ r.devices.entries, e.2.deviceId = e.1 :=
    fun e he => hkeys e.1 e.2 (lookup_eq_some_iff.mpr he)
  have hids : r.snapshot.devices.map (fun d => d.deviceId) = r.devices.keys := by
    show (r.devices.entries.map fun e => e.2).map (fun d => d.deviceId) =
      r.devices.entries.map Sigma.fst
    rw [List.map_map]
    exact List.map_congr_left hmatch
  have hnodup : (r.snapshot.devices.map fun d => d.deviceId).Nodup := by
    rw [hids]
    exact r.devices.keys_nodup
  have hfold := lookup_foldl_insert hnodup ∅ id
  rw [AList.lookup_empty, Option.or_none] at hfold
  unfold collectDevices
  rw [hfold]
  congr 1
  exact find_entries hmatch id

theorem all_finite_iff {r : Inner} :
    r.snapshot.devices.all (fun d => d.cpuUsage.isFinite) = true ↔ r.AllFinite := by
  rw [List.all_eq_true]
  constructor
  · intro h id d hd
    exact h d (List.mem_map.mpr ⟨⟨id, d⟩, lookup_eq_some_iff.mp hd, rfl⟩)
  · intro h d hd
    obtain ⟨⟨id, d'⟩, he, rfl⟩ := List.mem_map.mp hd
    exact h id d' (lookup_eq_some_iff.mpr he)

/-- `load` of a written snapshot: it restores it, or it fails for a record that did not survive. -/
theorem load_file (r : Inner) (hfin : r.AllFinite) : load (some r.file) = some r.snapshot.restore := by
  show (RegistrySnapshot.codec.decode (RegistrySnapshot.codec.encode r.snapshot)).map _ = _
  rw [snapshot_decode_encode, if_pos (all_finite_iff.mpr hfin)]
  rfl

theorem load_file_fails (r : Inner) (hfin : ¬ r.AllFinite) : load (some r.file) = none := by
  show (RegistrySnapshot.codec.decode (RegistrySnapshot.codec.encode r.snapshot)).map _ = _
  rw [snapshot_decode_encode, if_neg (fun h => hfin (all_finite_iff.mp h))]
  rfl

/-! ## §3 The registry a snapshot has to restore. -/

/-- `r'` has the devices of `r` (ids, hardware and software), its desired state, and no device seen
yet. -/
structure Restores (r r' : Inner) : Prop where
  devices : ∀ id, (r'.devices.lookup id).map (fun d => (d.hardwareId, d.softwareVersion)) =
    (r.devices.lookup id).map fun d => (d.hardwareId, d.softwareVersion)
  policy : r'.policy = r.policy
  policySeq : r'.policySeq = r.policySeq
  desiredSoftware : r'.desiredSoftware = r.desiredSoftware
  unseen : ∀ id d, r'.devices.lookup id = some d → d.lastSeenSecs = 0

/-- `r'` agrees with `r` on everything but what heartbeats refresh. -/
structure SameRoster (r r' : Inner) : Prop where
  devices : ∀ id, (r'.devices.lookup id).map (fun d => (d.hardwareId, d.softwareVersion)) =
    (r.devices.lookup id).map fun d => (d.hardwareId, d.softwareVersion)
  policy : r'.policy = r.policy
  policySeq : r'.policySeq = r.policySeq
  desiredSoftware : r'.desiredSoftware = r.desiredSoftware

theorem restores_restore {r : Inner} (hkeys : r.KeysMatch) : Restores r r.snapshot.restore where
  devices id := by
    show ((collectDevices r.snapshot.devices).lookup id).map _ = _
    rw [lookup_collectDevices hkeys]
    cases r.devices.lookup id <;> rfl
  policy := rfl
  policySeq := rfl
  desiredSoftware := rfl
  unseen id d hd := by
    have hd' : (collectDevices r.snapshot.devices).lookup id = some d := hd
    rw [lookup_collectDevices hkeys] at hd'
    obtain ⟨d₀, _, rfl⟩ := Option.map_eq_some_iff.mp hd'
    rfl

theorem Restores.of_sameRoster {r₀ r r' : Inner} (h : Restores r₀ r') (hs : SameRoster r₀ r) :
    Restores r r' where
  devices id := (h.devices id).trans (hs.devices id).symm
  policy := h.policy.trans hs.policy.symm
  policySeq := h.policySeq.trans hs.policySeq.symm
  desiredSoftware := h.desiredSoftware.trans hs.desiredSoftware.symm
  unseen := h.unseen

theorem SameRoster.trans {r₁ r₂ r₃ : Inner} (h : SameRoster r₁ r₂) (h' : SameRoster r₂ r₃) :
    SameRoster r₁ r₃ where
  devices id := (h'.devices id).trans (h.devices id)
  policy := h'.policy.trans h.policy
  policySeq := h'.policySeq.trans h.policySeq
  desiredSoftware := h'.desiredSoftware.trans h.desiredSoftware

/-- A lookup after an insertion. -/
theorem lookup_insert_cases (m : Devices) (id id' : String) (d : DeviceRecord) :
    (m.insert id d).lookup id' = if id' = id then some d else m.lookup id' := by
  by_cases h : id' = id
  · subst h
    rw [AList.lookup_insert, if_pos rfl]
  · rw [AList.lookup_insert_ne h, if_neg h]

theorem KeysMatch.insert {m : Devices} {id : String} {d : DeviceRecord} (hd : d.deviceId = id)
    (h : ∀ id d, m.lookup id = some d → d.deviceId = id) :
    ∀ id' d', (m.insert id d).lookup id' = some d' → d'.deviceId = id' := by
  intro id' d' hl
  rw [lookup_insert_cases] at hl
  split at hl
  · rename_i he
    cases hl
    rw [hd, he]
  · exact h id' d' hl

/-- Every operation files records under their own ids. -/
theorem Op.apply_keysMatch (op : Op) {r : Inner} (h : r.KeysMatch) : (op.apply r).2.KeysMatch := by
  have heff := op.effect r
  generalize op.apply r = result at heff
  cases heff with
  | kept _ => exact h
  | registered now args => exact KeysMatch.insert rfl h
  | refreshed now u d hl => exact KeysMatch.insert (h _ d hl) h
  | policy p _ => exact h
  | software version _ => exact h

/-- An operation that does not persist leaves what a snapshot restores. -/
theorem Op.apply_sameRoster (op : Op) {r : Inner} (h : (op.apply r).1 = false) :
    SameRoster r (op.apply r).2 := by
  have heff := op.effect r
  generalize op.apply r = result at heff h
  cases heff with
  | kept _ => exact ⟨fun _ => rfl, rfl, rfl, rfl⟩
  | refreshed now u d hl =>
      refine ⟨?_, rfl, rfl, rfl⟩
      intro id
      show ((r.devices.insert u.deviceId (r.refreshed now u d)).lookup id).map _ = _
      rw [lookup_insert_cases]
      split
      · rename_i he
        rw [he, hl]
        rfl
      · rfl
  | registered now args => cases h
  | policy p _ => cases h
  | software version _ => cases h

/-! ## §4 The latest report of each device. -/

/-- The device an operation is about. -/
def Op.device : Op → Option String
  | .register _ args => some args.deviceId
  | .heartbeat _ u => some u.deviceId
  | .setPolicy _ => none
  | .setDesiredSoftware _ => none

/-- `id` was registered in `ops`. -/
def Registered (ops : List Op) (id : String) : Prop :=
  ∃ now args, Op.register now args ∈ ops ∧ args.deviceId = id

/-- The heartbeat of `id` that counts: it came after a registration, and neither a registration nor a
heartbeat of the device followed. If there is one, it carried a finite `cpu_usage`. -/
def LatestFinite (ops : List Op) (id : String) : Prop :=
  ∀ a now u b, ops = a ++ Op.heartbeat now u :: b → u.deviceId = id → Registered a id →
    (∀ op ∈ b, op.device ≠ some id) → u.cpu.isFinite = true

theorem after_append (ops : List Op) (op : Op) :
    ControlPlane.after (ops ++ [op]) = (ControlPlane.after ops).step op := by
  unfold ControlPlane.after
  rw [List.foldl_append]
  rfl

theorem step_inner (w : ControlPlane) (op : Op) : (w.step op).inner = (op.apply w.inner).2 := rfl

theorem step_file (w : ControlPlane) (op : Op) :
    (w.step op).file = if (op.apply w.inner).1 then some (op.apply w.inner).2.file else w.file := rfl

/-- An operation leaves the records of the devices it is not about. -/
theorem Op.lookup_other (op : Op) (r : Inner) {id : String} (h : op.device ≠ some id) :
    (op.apply r).2.devices.lookup id = r.devices.lookup id := by
  have heff := op.effect r
  generalize op.apply r = result at heff
  cases heff with
  | kept _ => rfl
  | registered now args => exact AList.lookup_insert_ne fun he => h (congrArg some he.symm)
  | refreshed now u d _ => exact AList.lookup_insert_ne fun he => h (congrArg some he.symm)
  | policy p _ => rfl
  | software version _ => rfl

/-- A heartbeat on a known device files the reported load. -/
theorem lookup_heartbeat {r : Inner} {now : UInt64} {u : HeartbeatUpdate} {d : DeviceRecord}
    (h : r.devices.lookup u.deviceId = some d) :
    ((Op.heartbeat now u).apply r).2.devices.lookup u.deviceId = some (r.refreshed now u d) := by
  show (r.heartbeatUpdate now u).2.devices.lookup u.deviceId = _
  unfold Inner.heartbeatUpdate
  rw [h]
  exact AList.lookup_insert _

theorem heartbeat_unknown {r : Inner} {now : UInt64} {u : HeartbeatUpdate}
    (h : r.devices.lookup u.deviceId = none) : ((Op.heartbeat now u).apply r).2 = r := by
  show (r.heartbeatUpdate now u).2 = r
  unfold Inner.heartbeatUpdate
  rw [h]

theorem registered_append {ops : List Op} {op : Op} {id : String} :
    Registered (ops ++ [op]) id ↔
      Registered ops id ∨ ∃ now args, op = .register now args ∧ args.deviceId = id := by
  constructor
  · rintro ⟨now, args, hmem, hid⟩
    rcases List.mem_append.mp hmem with hold | hnew
    · exact .inl ⟨now, args, hold, hid⟩
    · exact .inr ⟨now, args, (List.mem_singleton.mp hnew).symm, hid⟩
  · rintro (⟨now, args, hmem, hid⟩ | ⟨now, args, rfl, hid⟩)
    · exact ⟨now, args, List.mem_append_left _ hmem, hid⟩
    · exact ⟨now, args, List.mem_append_right _ List.mem_cons_self, hid⟩

/-- The devices on file are the registered ones. -/
theorem lookup_isSome_iff (ops : List Op) (id : String) :
    ((ControlPlane.after ops).inner.devices.lookup id).isSome = true ↔ Registered ops id := by
  induction ops using List.reverseRecOn with
  | nil =>
      constructor
      · intro h
        exact absurd h (by simp [ControlPlane.after, Inner.empty])
      · rintro ⟨_, _, hmem, _⟩
        cases hmem
  | append_singleton ops op ih =>
      rw [after_append, step_inner, registered_append]
      by_cases hdev : op.device = some id
      · cases op with
        | register now args =>
            cases hdev
            constructor
            · exact fun _ => .inr ⟨now, args, rfl, rfl⟩
            · intro _
              show ((AList.insert args.deviceId _ _).lookup _).isSome = true
              rw [AList.lookup_insert]
              rfl
        | heartbeat now u =>
            cases hdev
            have hnot : ¬ ∃ now' args, Op.heartbeat now u = .register now' args ∧
                args.deviceId = u.deviceId := by
              rintro ⟨_, _, he, _⟩
              cases he
            rw [or_iff_left hnot, ← ih]
            cases hl : (ControlPlane.after ops).inner.devices.lookup u.deviceId with
            | none => rw [heartbeat_unknown hl, hl]
            | some d => rw [lookup_heartbeat hl]; rfl
        | setPolicy p => cases hdev
        | setDesiredSoftware version => cases hdev
      · have hnot : ¬ ∃ now args, op = .register now args ∧ args.deviceId = id := by
          rintro ⟨now, args, rfl, rfl⟩
          exact hdev rfl
        rw [op.lookup_other _ hdev, ih, or_iff_left hnot]

/-- Splitting off the last operation: a heartbeat in `ops ++ [op]` is `op` or one of `ops`. -/
theorem append_eq_cases {ops a b : List Op} {op hb : Op} (h : ops ++ [op] = a ++ hb :: b) :
    (b = [] ∧ op = hb ∧ ops = a) ∨ ∃ b', b = b' ++ [op] ∧ ops = a ++ hb :: b' := by
  rcases List.eq_nil_or_concat b with rfl | ⟨b', last, rfl⟩
  · obtain ⟨rfl, hlast⟩ := List.append_inj' h rfl
    exact .inl ⟨rfl, by simpa using hlast, rfl⟩
  · have h' : ops ++ [op] = (a ++ hb :: b') ++ [last] := by simpa using h
    obtain ⟨rfl, hlast⟩ := List.append_inj' h' rfl
    have hop : op = last := by simpa using hlast
    exact .inr ⟨b', by rw [hop, List.concat_eq_append], rfl⟩

/-- An operation about another device changes nothing for this one. -/
theorem latestFinite_other {ops : List Op} {op : Op} {id : String} (hdev : op.device ≠ some id) :
    LatestFinite (ops ++ [op]) id ↔ LatestFinite ops id := by
  constructor
  · intro h a now u b heq hid hreg hb
    refine h a now u (b ++ [op]) (by rw [heq]; simp) hid hreg ?_
    intro o ho
    rcases List.mem_append.mp ho with hold | hnew
    · exact hb o hold
    · exact List.mem_singleton.mp hnew ▸ hdev
  · intro h a now u b heq hid hreg hb
    rcases append_eq_cases heq with ⟨_, rfl, _⟩ | ⟨b', rfl, heq'⟩
    · exact absurd (congrArg some hid) hdev
    · exact h a now u b' heq' hid hreg fun o ho => hb o (List.mem_append_left _ ho)

/-- An operation about the device outdates everything before it. -/
theorem latestFinite_same {ops : List Op} {op : Op} {id : String} (hdev : op.device = some id) :
    LatestFinite (ops ++ [op]) id ↔
      ∀ now u, op = .heartbeat now u → Registered ops id → u.cpu.isFinite = true := by
  constructor
  · intro h now u hop hreg
    subst hop
    cases hdev
    exact h ops now u [] rfl rfl hreg nofun
  · intro h a now u b heq hid hreg hb
    rcases append_eq_cases heq with ⟨_, rfl, rfl⟩ | ⟨b', rfl, _⟩
    · exact h now u rfl hreg
    · exact absurd hdev (hb op (List.mem_append_right _ List.mem_cons_self))

theorem isFinite_zero : F64.zero.isFinite = true := by decide

/-- **What is on file is what was reported last.** -/
theorem lookup_finite_iff (ops : List Op) (id : String) :
    (∀ d, (ControlPlane.after ops).inner.devices.lookup id = some d → d.cpuUsage.isFinite = true) ↔
      LatestFinite ops id := by
  induction ops using List.reverseRecOn with
  | nil =>
      constructor
      · intro _ a now u b heq
        simp at heq
      · intro _ d hd
        cases hd
  | append_singleton ops op ih =>
      rw [after_append, step_inner]
      by_cases hdev : op.device = some id
      · rw [latestFinite_same hdev, ← lookup_isSome_iff]
        cases op with
        | register now args =>
            cases hdev
            constructor
            · intro _ _ _ he
              cases he
            · intro _ d hd
              have hd' : ((ControlPlane.after ops).inner.devices.insert args.deviceId _).lookup
                  args.deviceId = some d := hd
              rw [AList.lookup_insert] at hd'
              cases hd'
              exact isFinite_zero
        | heartbeat now u =>
            cases hdev
            cases hl : (ControlPlane.after ops).inner.devices.lookup u.deviceId with
            | none =>
                rw [heartbeat_unknown hl, hl]
                exact ⟨fun _ _ _ _ h => (by cases h), fun _ _ h => (by cases h)⟩
            | some d₀ =>
                have hcpu : ((ControlPlane.after ops).inner.refreshed now u d₀).cpuUsage = u.cpu := rfl
                rw [lookup_heartbeat hl]
                constructor
                · intro h _ _ he _
                  cases he
                  exact hcpu ▸ h ((ControlPlane.after ops).inner.refreshed now u d₀) rfl
                · intro h d hd
                  rw [← Option.some.inj hd, hcpu]
                  exact h now u rfl rfl
        | setPolicy p => cases hdev
        | setDesiredSoftware version => cases hdev
      · rw [op.lookup_other _ hdev, latestFinite_other hdev, ih]

/-! ## §5 Restarts. -/

theorem keysMatch_after (ops : List Op) : (ControlPlane.after ops).inner.KeysMatch := by
  induction ops using List.reverseRecOn with
  | nil =>
      intro _ _ h
      cases h
  | append_singleton ops op ih =>
      rw [after_append]
      exact op.apply_keysMatch ih

/-- `m` persists after `pre`, and nothing after it does. -/
structure LastWrite (pre : List Op) (m : Op) (post : List Op) : Prop where
  persists : (m.apply (ControlPlane.after pre).inner).1 = true
  quiet : ∀ p op q, post = p ++ op :: q →
    (op.apply (ControlPlane.after (pre ++ m :: p)).inner).1 = false

/-- What follows the last write changes neither the file nor what it restores. -/
theorem LastWrite.after {pre : List Op} {m : Op} {post : List Op} (h : LastWrite pre m post) :
    (ControlPlane.after (pre ++ m :: post)).file =
        some (ControlPlane.after (pre ++ [m])).inner.file ∧
      SameRoster (ControlPlane.after (pre ++ [m])).inner
        (ControlPlane.after (pre ++ m :: post)).inner := by
  obtain ⟨hm, hquiet⟩ := h
  induction post using List.reverseRecOn with
  | nil =>
      rw [after_append]
      refine ⟨?_, fun _ => rfl, rfl, rfl, rfl⟩
      rw [step_file, if_pos hm, step_inner]
  | append_singleton post op ih =>
      have hrest : ∀ p o q, post = p ++ o :: q →
          (o.apply (ControlPlane.after (pre ++ m :: p)).inner).1 = false := by
        intro p o q heq
        exact hquiet p o (q ++ [op]) (by rw [heq]; simp)
      have hlast := hquiet post op [] rfl
      have hsplit : pre ++ m :: (post ++ [op]) = (pre ++ m :: post) ++ [op] := by simp
      obtain ⟨hfile, hroster⟩ := ih hrest
      rw [hsplit, after_append]
      constructor
      · rw [step_file, hlast]
        exact hfile
      · rw [step_inner]
        exact hroster.trans (op.apply_sameRoster hlast)

/-- **A restart restores the registry exactly when no written load figure was a NaN or an infinity.** -/
theorem loads_back_iff (pre : List Op) (m : Op) (post : List Op) (h : LastWrite pre m post) :
    (∃ r', load (ControlPlane.after (pre ++ m :: post)).file = some r' ∧
        Restores (ControlPlane.after (pre ++ m :: post)).inner r') ↔
      ∀ id, LatestFinite (pre ++ [m]) id := by
  obtain ⟨hfile, hroster⟩ := h.after
  have hfinite : (ControlPlane.after (pre ++ [m])).inner.AllFinite ↔
      ∀ id, LatestFinite (pre ++ [m]) id :=
    forall_congr' fun id => lookup_finite_iff (pre ++ [m]) id
  rw [hfile, ← hfinite]
  constructor
  · rintro ⟨r', hload, _⟩
    by_contra hnot
    rw [load_file_fails _ hnot] at hload
    cases hload
  · intro hfin
    exact ⟨_, load_file _ hfin, (restores_restore (keysMatch_after _)).of_sameRoster hroster⟩

/-- A device with the given id and nothing else to say. -/
def RegisterArgs.named (id : String) : RegisterArgs := ⟨id, "", "", "", ""⟩

/-- A heartbeat that reports nothing but its load. -/
def HeartbeatUpdate.loaded (id : String) (cpu : F64) : HeartbeatUpdate := ⟨id, "", "", 1, cpu, 0, 0, 0⟩

theorem loads_back_one_device :
    (∃ r', load (ControlPlane.after ([.register 7 (.named "d1")] ++ .setPolicy Policy.default ::
        [.heartbeat 8 (.loaded "d1" F64.nan)])).file = some r' ∧
        Restores (ControlPlane.after ([.register 7 (.named "d1")] ++ .setPolicy Policy.default ::
          [.heartbeat 8 (.loaded "d1" F64.nan)])).inner r') ↔
      ∀ id, LatestFinite ([.register 7 (.named "d1")] ++ [.setPolicy Policy.default]) id := by
  refine loads_back_iff [.register 7 (.named "d1")] (.setPolicy Policy.default)
    [.heartbeat 8 (.loaded "d1" F64.nan)] ⟨by decide +kernel, ?_⟩
  intro p op q heq
  obtain ⟨rfl, rfl, rfl⟩ | ⟨b', _, hnil⟩ := append_eq_cases (show [] ++ [_] = p ++ op :: q from heq)
  · rfl
  · simp at hnil

/-- One device, one heartbeat that reports a NaN, one policy change: the control plane does not come
up again. -/
theorem nan_heartbeat_blocks_restart :
    LastWrite [.register 7 (.named "d1"), .heartbeat 8 (.loaded "d1" F64.nan)]
        (.setPolicy Policy.default) [] ∧
      load (ControlPlane.after [.register 7 (.named "d1"), .heartbeat 8 (.loaded "d1" F64.nan),
        .setPolicy Policy.default]).file = none := by
  constructor
  · refine ⟨by decide +kernel, ?_⟩
    intro p op q heq
    simp at heq
  · have hnan : ¬ (ControlPlane.after [.register 7 (.named "d1"),
        .heartbeat 8 (.loaded "d1" F64.nan), .setPolicy Policy.default]).inner.AllFinite := by
      rw [← all_finite_iff]
      decide +kernel
    exact load_file_fails _ hnan

end Edgewarden.Registry
