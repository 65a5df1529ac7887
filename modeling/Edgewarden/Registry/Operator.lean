/-
# Edgewarden.Registry.Operator — the operator's side of `control-plane/src/main.rs`, over restarts.

An operator reads `GET /devices` and writes `POST /policy`, while devices register and send heartbeats and the
process is restarted now and then. A restart loads the snapshot as it is; the snapshot is written by the
operations that persist, and heartbeats do not.

* §1 is the REST interface and the run: operations of the RPC handlers, pushes with any JSON body, restarts.
* `device_rows_live`: "a restart must not present stale devices as fresh". There is a row for exactly the devices
  that have registered, in this process or before, and its age is the time since the device was last heard by
  THIS process; a device that was not has the age of the clock itself.
* `push_answers_ordered`: what the operator was answered can be relied on over restarts. The seqs of the answers
  never go back, and a seq that is answered again stands for the policy it stood for: a push that repeats the
  version in force is answered like any other and changes nothing, whatever else its body says.

The control plane of this file persists, its operations run one at a time, and each snapshot is written without
error before the next operation or restart. Without that a restart can come back to less: with a memory-only
registry, after a snapshot that failed (which is only logged), or with snapshots that overtake each other. What
these do is in `Registry.Concurrent`, `Registry.PowerLoss` and `Fleet.Setback`.
-/
import Edgewarden.Registry.Roster

namespace Edgewarden.Registry

open Edgewarden.Calls Edgewarden.Serde Edgewarden.State

/-! ## §1 The interface. -/

structure DeviceView where
  deviceId : String
  reportedPolicyVersion : String
  desiredPolicyVersion : UInt64
  health : Int32
  lastSeenAgeSecs : UInt64
  activeConnections : UInt64
  deriving DecidableEq, Repr

/-- `u64::saturating_sub`. -/
def saturatingSub (a b : UInt64) : UInt64 := if b ≤ a then a - b else 0

def DeviceRecord.lastSeenAgeSecs (d : DeviceRecord) (now : UInt64) : UInt64 := saturatingSub now d.lastSeenSecs

def DeviceRecord.view (d : DeviceRecord) (now : UInt64) : DeviceView where
  deviceId := d.deviceId
  reportedPolicyVersion := d.reportedPolicyVersion
  desiredPolicyVersion := d.desiredPolicyVersion
  health := d.health
  lastSeenAgeSecs := d.lastSeenAgeSecs now
  activeConnections := d.activeConnections

/-- `GET /devices`. -/
def Inner.listDevices (r : Inner) (now : UInt64) : List DeviceView := r.records.map fun d => d.view now

/-- The body of `POST /policy`. -/
structure PolicyBody where
  version : UInt64
  maxConnections : UInt32
  idleTimeoutSecs : UInt64
  defaultUpstream : String
  deriving DecidableEq, Repr

def PolicyBody.fields : List String := ["version", "max_connections", "idle_timeout_secs", "default_upstream"]

/-- The derived `Deserialize` of `PolicyBody`, with its defaults. -/
def PolicyBody.ofJson (body : Json) : Option PolicyBody := do
  let j ← body.members PolicyBody.fields
  let version ← Codec.u64.get j "version"
  let maxConnections ← Codec.u32.getOr 512 j "max_connections"
  let idleTimeoutSecs ← Codec.u64.getOr 300 j "idle_timeout_secs"
  let defaultUpstream ← Codec.string.getOr "upstream:18081" j "default_upstream"
  return { version, maxConnections, idleTimeoutSecs, defaultUpstream }

/-- A body may also be an array of the fields in order. -/
theorem PolicyBody.ofJson_arr {items : List Json} (hlen : items.length ≤ PolicyBody.fields.length) :
    PolicyBody.ofJson (.arr items) = PolicyBody.ofJson (.obj (PolicyBody.fields.zip items)) := by
  simp only [PolicyBody.ofJson, Json.members_arr (by decide) hlen]

example : PolicyBody.ofJson (.arr [.int 8]) = some ⟨8, 512, 300, "upstream:18081"⟩ := by decide +kernel

example : PolicyBody.ofJson (.obj [("version", .int 8), ("note", .bool true), ("version", .int 8)]) = none := rfl

def PolicyBody.policy (b : PolicyBody) : Policy where
  version := b.version
  maxConnections := b.maxConnections
  idleTimeoutSecs := b.idleTimeoutSecs
  defaultUpstream := b.defaultUpstream
  rulesJson := "\x7b\x7d"

/-- What `POST /policy` answers. -/
structure PushReply where
  seq : Nat
  version : UInt64
  deriving DecidableEq, Repr

/-- A control plane process with a persisted registry, or one that did not come up. -/
structure Plane where
  up : Bool
  plane : ControlPlane

inductive PlaneEvent
  /-- An operation of an RPC handler. -/
  | rpc (op : Op)
  /-- `POST /policy`. -/
  | push (body : Json)
  /-- The process ends and is started again. -/
  | restart

/-- `Registry::load` of what is at the path; a failure is the end of `main`. -/
def Plane.restart (w : Plane) : Plane :=
  match load w.plane.file with
  | some r => ⟨true, r, w.plane.file⟩
  | none => ⟨false, w.plane⟩

def Plane.step (w : Plane) : PlaneEvent → Option PushReply × Plane
  | .rpc op => (none, if w.up then ⟨true, w.plane.step op⟩ else w)
  | .push body =>
      match w.up, PolicyBody.ofJson body with
      | true, some b =>
          let plane := w.plane.step (.setPolicy b.policy)
          (some ⟨plane.inner.policySeq, b.version⟩, ⟨true, plane⟩)
      -- a body that does not decode is refused before the handler
      | _, _ => (none, w)
  | .restart => (none, w.restart)

def operated : Machine Plane PlaneEvent (Option PushReply) where
  init := ⟨true, .empty, none⟩
  step := Plane.step

/-! ## §2 Check-ins. -/

/-- When the operation is a check-in of the device: the clock it was handled at. -/
def Op.checkin (id : String) : Op → Option UInt64
  | .register now args => if args.deviceId = id then some now else none
  | .heartbeat now u => if u.deviceId = id then some now else none
  | _ => none

/-- When the device last checked in with this process. -/
def lastCheckin (id : String) (events : List PlaneEvent) : Option UInt64 :=
  events.foldl (fun last e =>
    match e with
    | .rpc op => (op.checkin id).or last
    | .push _ => last
    | .restart => none) none

/-- The device has registered, in this process or before. -/
def EverRegistered (id : String) (events : List PlaneEvent) : Prop :=
  ∃ now args, .rpc (.register now args) ∈ events ∧ args.deviceId = id

section Ops

variable {r : Inner} {id : String} {d : DeviceRecord}

theorem checkin_none {op : Op} (h : op.device ≠ some id) : op.checkin id = none := by
  cases op with
  | register now args => exact if_neg fun he => h (congrArg some he)
  | heartbeat now u => exact if_neg fun he => h (congrArg some he)
  | setPolicy p => rfl
  | setDesiredSoftware version => rfl

/-- A record after an operation: it was seen by the operation, or is the one before. -/
theorem Op.lookup_seen (op : Op) (hd : (op.apply r).2.devices.lookup id = some d) :
    op.checkin id = some d.lastSeenSecs ∨ (op.checkin id = none ∧ r.devices.lookup id = some d) := by
  by_cases hdev : op.device = some id
  · left
    cases op with
    | register now args =>
        obtain rfl : args.deviceId = id := Option.some.inj hdev
        have hnew : r.newRecord now args = d := by
          simpa [Op.apply, Inner.register, AList.lookup_insert] using hd
        rw [← hnew]
        exact if_pos rfl
    | heartbeat now u =>
        obtain rfl : u.deviceId = id := Option.some.inj hdev
        cases hl : r.devices.lookup u.deviceId with
        | none =>
            rw [heartbeat_unknown hl, hl] at hd
            cases hd
        | some d₀ =>
            rw [lookup_heartbeat hl] at hd
            rw [← Option.some.inj hd]
            exact if_pos rfl
    | setPolicy p => cases hdev
    | setDesiredSoftware version => cases hdev
  · exact .inr ⟨checkin_none hdev, op.lookup_other r hdev ▸ hd⟩

/-- The devices after an operation. -/
theorem Op.lookup_isSome (op : Op) (r : Inner) (id : String) :
    ((op.apply r).2.devices.lookup id).isSome = true ↔
      (r.devices.lookup id).isSome = true ∨ ∃ now args, op = .register now args ∧ args.deviceId = id := by
  cases op with
  | register now args =>
      show ((r.devices.insert args.deviceId (r.newRecord now args)).lookup id).isSome = true ↔ _
      rw [lookup_insert_cases]
      by_cases hid : id = args.deviceId
      · simp [hid]
      · simp [hid, Ne.symm hid]
  | heartbeat now u =>
      rw [or_iff_left (by simp)]
      cases hl : r.devices.lookup u.deviceId with
      | none => rw [heartbeat_unknown hl]
      | some d =>
          by_cases hid : id = u.deviceId
          · rw [hid, lookup_heartbeat hl, hl]
            simp
          · have hdev : (Op.heartbeat now u).device ≠ some id := fun h => hid (Option.some.inj h).symm
            rw [Op.lookup_other _ r hdev]
  | setPolicy p =>
      simp only [Op.apply, Inner.setPolicy]
      split <;> simp
  | setDesiredSoftware version =>
      simp only [Op.apply, Inner.setDesiredSoftware]
      split <;> simp

end Ops

/-! ## §3 What a restart finds. -/

/-- The file holds the roster and the desired state of the registry in memory; without one there are none. -/
structure Filed (w : ControlPlane) : Prop where
  keys : w.inner.KeysMatch
  file : (w.file = none ∧ SameRoster .empty w.inner) ∨
    ∃ r₀ : Inner, w.file = some r₀.file ∧ r₀.KeysMatch ∧ SameRoster r₀ w.inner

section Files

variable {w : ControlPlane}

theorem SameRoster.refl (r : Inner) : SameRoster r r := ⟨fun _ => rfl, rfl, rfl, rfl⟩

theorem SameRoster.symm {r r' : Inner} (h : SameRoster r r') : SameRoster r' r :=
  ⟨fun id => (h.devices id).symm, h.policy.symm, h.policySeq.symm, h.desiredSoftware.symm⟩

theorem SameRoster.isSome {r r' : Inner} (h : SameRoster r r') (id : String) :
    (r'.devices.lookup id).isSome = (r.devices.lookup id).isSome := by
  have hid := congrArg Option.isSome (h.devices id)
  simpa using hid

theorem Restores.sameRoster {r r' : Inner} (h : Restores r r') : SameRoster r r' :=
  ⟨h.devices, h.policy, h.policySeq, h.desiredSoftware⟩

theorem Filed.step (h : Filed w) (op : Op) : Filed (w.step op) where
  keys := op.apply_keysMatch h.keys
  file := by
    rw [step_file, step_inner]
    cases hp : (op.apply w.inner).1 with
    | true => exact .inr ⟨_, rfl, op.apply_keysMatch h.keys, .refl _⟩
    | false =>
        have hsame := op.apply_sameRoster hp
        rcases h.file with ⟨hnone, hempty⟩ | ⟨r₀, hfile, hkeys, hroster⟩
        · exact .inl ⟨by simpa using hnone, hempty.trans hsame⟩
        · exact .inr ⟨r₀, by simpa using hfile, hkeys, hroster.trans hsame⟩

/-- **A restart.** Roster and desired state are those in memory before, and no device was seen. -/
theorem Filed.load {r : Inner} (h : Filed w) (hload : load w.file = some r) :
    Filed ⟨r, w.file⟩ ∧ Restores w.inner r := by
  rcases h.file with ⟨hnone, hempty⟩ | ⟨r₀, hfile, hkeys, hroster⟩
  · rw [hnone] at hload
    obtain rfl : Inner.empty = r := Option.some.inj hload
    refine ⟨⟨fun id d hd => (by cases hd), .inl ⟨hnone, .refl _⟩⟩, ?_⟩
    have hback := hempty.symm
    exact ⟨hback.devices, hback.policy, hback.policySeq, hback.desiredSoftware, fun id d hd => (by cases hd)⟩
  · rw [hfile] at hload
    have hrestores : Restores r₀ r := by
      rw [load_eq_restore hload]
      exact restores_restore hkeys
    refine ⟨⟨?_, .inr ⟨r₀, hfile, hkeys, hrestores.sameRoster⟩⟩, hrestores.of_sameRoster hroster⟩
    rw [load_eq_restore hload]
    intro id d hd
    obtain ⟨d₀, hd₀, rfl⟩ := lookup_restore hkeys hd
    exact hkeys id d₀ hd₀

end Files

/-! ## §4 Rows. -/

/-- What a process that is up knows of the devices. -/
structure Live (events : List PlaneEvent) (w : Plane) : Prop where
  filed : Filed w.plane
  seen : w.up = true → ∀ id d, w.plane.inner.devices.lookup id = some d →
    d.lastSeenSecs = (lastCheckin id events).getD 0
  roster : w.up = true → ∀ id, (w.plane.inner.devices.lookup id).isSome = true ↔ EverRegistered id events
  /-- A process that did not come up will not come up. -/
  down : w.up = false → load w.plane.file = none

section Live

variable {events : List PlaneEvent} {w : Plane}

theorem lastCheckin_snoc (id : String) (events : List PlaneEvent) (e : PlaneEvent) :
    lastCheckin id (events ++ [e]) =
      match e with
      | .rpc op => (op.checkin id).or (lastCheckin id events)
      | .push _ => lastCheckin id events
      | .restart => none := by
  unfold lastCheckin
  rw [List.foldl_append]
  cases e <;> rfl

theorem everRegistered_snoc {id : String} {e : PlaneEvent} :
    EverRegistered id (events ++ [e]) ↔
      EverRegistered id events ∨ ∃ now args, e = .rpc (.register now args) ∧ args.deviceId = id := by
  constructor
  · rintro ⟨now, args, hmem, hid⟩
    rcases List.mem_append.mp hmem with hold | hnew
    · exact .inl ⟨now, args, hold, hid⟩
    · exact .inr ⟨now, args, (List.mem_singleton.mp hnew).symm, hid⟩
  · rintro (⟨now, args, hmem, hid⟩ | ⟨now, args, rfl, hid⟩)
    · exact ⟨now, args, List.mem_append_left _ hmem, hid⟩
    · exact ⟨now, args, List.mem_append_right _ List.mem_cons_self, hid⟩

/-- An operation of a process that is up; `e` is the event that it is a part of. -/
theorem Live.operate {e : PlaneEvent} {op : Op} (h : Live events w) (hup : w.up = true)
    (hcheckin : ∀ id, lastCheckin id (events ++ [e]) = (op.checkin id).or (lastCheckin id events))
    (hregister : ∀ now args, op = .register now args ↔ e = .rpc (.register now args)) :
    Live (events ++ [e]) ⟨true, w.plane.step op⟩ where
  filed := h.filed.step op
  seen _ id d hd := by
    rw [hcheckin]
    rcases op.lookup_seen hd with hseen | ⟨hnone, hbefore⟩
    · rw [hseen]
      rfl
    · rw [hnone, Option.none_or]
      exact h.seen hup id d hbefore
  roster _ id := by
    rw [everRegistered_snoc, step_inner, op.lookup_isSome, h.roster hup]
    simp only [hregister]
  down hdown := by cases hdown

/-- A push that changes nothing: its body is refused, or the process is down. -/
theorem Live.refused (h : Live events w) (body : Json) : Live (events ++ [.push body]) w := by
  refine ⟨h.filed, ?_, ?_, h.down⟩
  · intro hup id d hd
    rw [lastCheckin_snoc]
    exact h.seen hup id d hd
  · intro hup id
    rw [everRegistered_snoc, h.roster hup]
    simp

theorem Live.restart (h : Live events w) : Live (events ++ [.restart]) w.restart := by
  unfold Plane.restart
  cases hload : load w.plane.file with
  | none => exact ⟨h.filed, fun hup => (by cases hup), fun hup => (by cases hup), fun _ => hload⟩
  | some r =>
      have hup : w.up = true := by
        by_contra hdown
        cases hload.symm.trans (h.down (Bool.eq_false_iff.mpr hdown))
      obtain ⟨hfiled, hrestores⟩ := h.filed.load hload
      refine ⟨hfiled, ?_, ?_, fun hup => (by cases hup)⟩
      · intro _ id d hd
        rw [lastCheckin_snoc]
        exact hrestores.unseen id d hd
      · intro _ id
        rw [everRegistered_snoc, hrestores.sameRoster.isSome, h.roster hup]
        simp

theorem live_after (events : List PlaneEvent) : Live events (operated.after events) := by
  induction events using List.reverseRecOn with
  | nil =>
      refine ⟨⟨fun id d hd => (by cases hd), .inl ⟨rfl, .refl _⟩⟩,
        fun _ id d hd => (by cases hd), ?_, fun h => (by cases h)⟩
      intro _ id
      constructor
      · intro h
        exact absurd h (by simp [operated, Machine.after, Inner.empty])
      · rintro ⟨_, _, hmem, _⟩
        cases hmem
  | append_singleton events e ih =>
      rw [Machine.after_snoc]
      generalize operated.after events = w at ih
      show Live (events ++ [e]) (w.step e).2
      cases e with
      | rpc op =>
          by_cases hup : w.up = true
          · simp only [Plane.step, hup, if_true]
            refine ih.operate hup (fun id => lastCheckin_snoc id events _) ?_
            intro now args
            simp
          · simp only [Plane.step, hup]
            exact ⟨ih.filed, fun h => absurd h hup, fun h => absurd h hup, ih.down⟩
      | push body =>
          cases hup : w.up with
          | false =>
              simp only [Plane.step, hup]
              exact ih.refused body
          | true =>
              cases hbody : PolicyBody.ofJson body with
              | none =>
                  simp only [Plane.step, hup, hbody]
                  exact ih.refused body
              | some b =>
                  simp only [Plane.step, hup, hbody]
                  refine ih.operate hup ?_ ?_
                  · intro id
                    rw [lastCheckin_snoc]
                    exact Option.none_or.symm
                  · intro now args
                    simp
      | restart => exact ih.restart

end Live

/-- **The rows of `GET /devices`.** In every run of operations, pushes and restarts of a control plane that persists
(one operation at a time, each snapshot written before the next), whenever the process is up: the devices with a
row are those that have ever registered, each has one row, and its age is the time since the device was last heard
by this process, or the whole of the clock if it was not. -/
theorem device_rows_live (events : List PlaneEvent) (now : UInt64) (hup : (operated.after events).up = true) :
    let rows := (operated.after events).plane.inner.listDevices now
    (∀ id, (∃ row ∈ rows, row.deviceId = id) ↔ EverRegistered id events) ∧
      (rows.map fun row => row.deviceId).Nodup ∧
      ∀ row ∈ rows, row.lastSeenAgeSecs =
        match lastCheckin row.deviceId events with
        | some t => saturatingSub now t
        | none => now := by
  have hlive := live_after events
  generalize operated.after events = w at hlive hup ⊢
  intro rows
  have hkeys := hlive.filed.keys
  have hrows : rows = w.plane.inner.records.map fun d => d.view now := rfl
  have hids : rows.map (fun row => row.deviceId) = w.plane.inner.devices.keys := by
    rw [hrows, List.map_map, Inner.records, List.map_map]
    refine List.map_congr_left ?_
    intro e he
    exact hkeys e.1 e.2 (lookup_eq_some_iff.mpr he)
  refine ⟨?_, ?_, ?_⟩
  · intro id
    rw [← hlive.roster hup id, AList.lookup_isSome, AList.mem_keys, ← hids, List.mem_map]
  · rw [hids]
    exact w.plane.inner.devices.keys_nodup
  · intro row hrow
    rw [hrows] at hrow
    obtain ⟨d, hd, rfl⟩ := List.mem_map.mp hrow
    have hlookup := mem_records hkeys (.inl hd)
    have hseen := hlive.seen hup _ d hlookup
    show saturatingSub now d.lastSeenSecs = _
    show _ = (match lastCheckin d.deviceId events with
      | some t => saturatingSub now t
      | none => now)
    rw [hseen]
    cases lastCheckin d.deviceId events with
    | some t => rfl
    | none => simp [saturatingSub]

theorem device_rows_live_registered :
    let rows := (operated.after [.rpc (.register 7 idleEdge), .restart]).plane.inner.listDevices 60
    (∀ id, (∃ row ∈ rows, row.deviceId = id) ↔ EverRegistered id [.rpc (.register 7 idleEdge), .restart]) ∧
      (rows.map fun row => row.deviceId).Nodup ∧
      ∀ row ∈ rows, row.lastSeenAgeSecs =
        match lastCheckin row.deviceId [.rpc (.register 7 idleEdge), .restart] with
        | some t => saturatingSub 60 t
        | none => 60 :=
  device_rows_live [.rpc (.register 7 idleEdge), .restart] 60 (by decide +kernel)

/-! ## §5 Answers to pushes. -/

section Pushes

variable {w : Plane}

/-- What an event makes of the desired state, restarts included. -/
theorem Plane.step_since (h : Filed w.plane) (e : PlaneEvent) :
    Since w.plane.inner (w.step e).2.plane.inner := by
  cases e with
  | rpc op =>
      cases hup : w.up with
      | false =>
          simp only [Plane.step, hup]
          exact .refl _
      | true =>
          simp only [Plane.step, hup, if_true, step_inner]
          exact (op.ticks w.plane.inner).since
  | push body =>
      simp only [Plane.step]
      split
      · rw [step_inner]
        exact (Op.ticks _ w.plane.inner).since
      · exact .refl _
  | restart =>
      show Since w.plane.inner w.restart.plane.inner
      unfold Plane.restart
      cases hload : load w.plane.file with
      | none => exact .refl _
      | some r =>
          have hrestores := (h.load hload).2
          exact ⟨Nat.le_of_eq hrestores.policySeq.symm,
            fun _ => ⟨hrestores.policy, hrestores.desiredSoftware⟩⟩

/-- What the rest of a run makes of it. -/
theorem since_after (before more : List PlaneEvent) :
    Since (operated.after before).plane.inner (operated.after (before ++ more)).plane.inner := by
  induction more using List.reverseRecOn with
  | nil =>
      rw [List.append_nil]
      exact .refl _
  | append_singleton more e ih =>
      rw [← List.append_assoc, Machine.after_snoc]
      exact ih.trans (Plane.step_since (live_after (before ++ more)).filed e)

/-- An answer says what is in force when it is given. -/
theorem push_answer {events : List PlaneEvent} {body : Json} {a : PushReply}
    (h : operated.answer events (.push body) = some a) :
    (operated.after (events ++ [.push body])).plane.inner.policySeq = a.seq ∧
      (operated.after (events ++ [.push body])).plane.inner.currentVersion = some a.version := by
  rw [Machine.after_snoc]
  unfold Machine.answer at h
  generalize operated.after events = w at h
  show (w.step (.push body)).2.plane.inner.policySeq = _ ∧ (w.step (.push body)).2.plane.inner.currentVersion = _
  have hstep : (w.step (.push body)).1 = some a := h
  cases hup : w.up with
  | false =>
      simp only [Plane.step, hup] at hstep
      cases hstep
  | true =>
      cases hbody : PolicyBody.ofJson body with
      | none =>
          simp only [Plane.step, hup, hbody] at hstep
          cases hstep
      | some b =>
          simp only [Plane.step, hup, hbody, Option.some.injEq] at hstep ⊢
          subst hstep
          exact ⟨rfl, setPolicy_currentVersion w.plane.inner b.policy⟩

end Pushes

/-- **Answers over restarts.** Two pushes that were answered by a control plane that persists (one operation at a
time, each snapshot written before the next), with any operations, refused bodies and restarts between them: the
later seq is not smaller, the policy in force after each is of the version it was answered, and when the seqs are
equal the second push left the policy of the first in force. -/
theorem push_answers_ordered (before between : List PlaneEvent) (body body' : Json) (a a' : PushReply)
    (h : operated.answer before (.push body) = some a)
    (h' : operated.answer (before ++ .push body :: between) (.push body') = some a') :
    let first := (operated.after (before ++ [.push body])).plane.inner
    let second := (operated.after (before ++ .push body :: between ++ [.push body'])).plane.inner
    a.seq ≤ a'.seq ∧ first.currentVersion = some a.version ∧ second.currentVersion = some a'.version ∧
      (a.seq = a'.seq → a'.version = a.version ∧ second.policy = first.policy) := by
  intro first second
  obtain ⟨hseq, hversion⟩ := push_answer h
  obtain ⟨hseq', hversion'⟩ := push_answer h'
  have hsince : Since first second := by
    have hsplit : before ++ .push body :: between ++ [.push body'] =
        before ++ [.push body] ++ (between ++ [.push body']) := by simp
    show Since first (operated.after (before ++ .push body :: between ++ [.push body'])).plane.inner
    rw [hsplit]
    exact since_after _ _
  refine ⟨?_, hversion, hversion', ?_⟩
  · rw [← hseq, ← hseq']
    exact hsince.le
  · intro heq
    have hpolicy : second.policy = first.policy := (hsince.same (by rw [hseq, hseq', heq])).1
    refine ⟨?_, hpolicy⟩
    have hsame : second.currentVersion = first.currentVersion := by
      unfold Inner.currentVersion
      rw [hpolicy]
    rw [hversion, hversion'] at hsame
    exact Option.some.inj hsame

/-- Version 5 is pushed, the process is restarted, and version 5 is pushed again with another limit, as an array. -/
theorem push_answers_ordered_repeated :
    let body := Json.obj [("version", Codec.u64.encode 5)]
    let body' := Json.arr [Codec.u64.encode 5, Codec.u32.encode 64]
    let first := (operated.after ([] ++ [.push body])).plane.inner
    let second := (operated.after ([] ++ .push body :: [.restart] ++ [.push body'])).plane.inner
    1 ≤ 1 ∧ first.currentVersion = some 5 ∧ second.currentVersion = some 5 ∧
      (1 = 1 → (5 : UInt64) = 5 ∧ second.policy = first.policy) :=
  push_answers_ordered [] [.restart] _ _ ⟨1, 5⟩ ⟨1, 5⟩ (by decide +kernel) (by decide +kernel)

end Edgewarden.Registry
