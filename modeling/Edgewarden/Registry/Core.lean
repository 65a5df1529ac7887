/-
# Edgewarden.Registry.Core — `control-plane/src/registry.rs`: records, operations, snapshots.

The operations are the critical sections of the source: what happens under one acquisition of the
write lock is one pure function on `Inner`. `snapshot` and `load` are the two directions of the
snapshot file, through the JSON value it holds.

* The device map is an `AList`: a finite map by device id. A hash map's iteration order is not
  specified; results are about lookups, never about that order.
* `now_secs()` is an argument. `policy_seq` counts operator calls and is a `Nat`: exact up to `2^64 - 1`
  of them, where `policy_seq += 1` overflows.
* `persist_path` is always set: a registry here is one that persists.
-/
import Edgewarden.Lib.Json
import Edgewarden.State.Reconcile
import Mathlib.Data.List.AList

namespace Edgewarden.Registry

open Edgewarden.Serde Edgewarden.State

/-! ## §1 Data. -/

structure DeviceRecord where
  deviceId : String
  hardwareId : String
  softwareVersion : String
  reportedPolicyVersion : String
  reportedSoftwareVersion : String
  desiredPolicyVersion : UInt64
  desiredSoftwareVersion : String
  desiredSeq : Nat
  health : Int32
  lastSeenSecs : UInt64
  uptimeSecs : UInt64
  cpuUsage : F64
  memoryBytes : UInt64
  activeConnections : UInt64
  deriving DecidableEq, Repr

abbrev Devices := AList fun _ : String => DeviceRecord

/-- `Inner`, without the path. `policy_seq` is a `u64`: what is below `2^64` is exact. -/
structure Inner where
  devices : Devices
  policy : Option Policy
  policySeq : Nat
  desiredSoftware : String
  deriving DecidableEq

/-- `Registry::default()`. -/
def Inner.empty : Inner := ⟨∅, none, 0, ""⟩

/-- `inner.policy.as_ref().map(|p| p.version).unwrap_or(0)`. -/
def Inner.policyVersion (r : Inner) : UInt64 := (r.policy.map fun p => p.version).getD 0

/-- The arguments of `register`. -/
structure RegisterArgs where
  deviceId : String
  hardwareId : String
  softwareVersion : String
  reportedPolicy : String
  reportedSoftware : String
  deriving DecidableEq, Repr

structure HeartbeatUpdate where
  deviceId : String
  reportedPolicy : String
  reportedSoftware : String
  health : Int32
  cpu : F64
  mem : UInt64
  active : UInt64
  uptime : UInt64
  deriving DecidableEq, Repr

/-- What `heartbeat_update` answers: desired version, policy, software and seq. -/
structure HeartbeatReply where
  version : UInt64
  policy : Option Policy
  software : String
  seq : Nat
  deriving DecidableEq, Repr

/-! ## §2 Operations. -/

/-- The record `register` builds. -/
def Inner.newRecord (r : Inner) (now : UInt64) (args : RegisterArgs) : DeviceRecord where
  deviceId := args.deviceId
  hardwareId := args.hardwareId
  softwareVersion := args.softwareVersion
  reportedPolicyVersion := args.reportedPolicy
  reportedSoftwareVersion := args.reportedSoftware
  desiredPolicyVersion := r.policyVersion
  desiredSoftwareVersion := r.desiredSoftware
  desiredSeq := r.policySeq
  health := 1
  lastSeenSecs := now
  uptimeSecs := 0
  cpuUsage := F64.zero
  memoryBytes := 0
  activeConnections := 0

def Inner.register (r : Inner) (now : UInt64) (args : RegisterArgs) : DeviceRecord × Inner :=
  let rec' := r.newRecord now args
  (rec', { r with devices := r.devices.insert args.deviceId rec' })

/-- The record after a heartbeat. -/
def Inner.refreshed (r : Inner) (now : UInt64) (u : HeartbeatUpdate) (d : DeviceRecord) :
    DeviceRecord :=
  { d with
    reportedPolicyVersion := u.reportedPolicy
    reportedSoftwareVersion := u.reportedSoftware
    health := u.health
    cpuUsage := u.cpu
    memoryBytes := u.mem
    activeConnections := u.active
    uptimeSecs := u.uptime
    lastSeenSecs := now
    desiredPolicyVersion := r.policyVersion
    desiredSoftwareVersion := r.desiredSoftware
    desiredSeq := r.policySeq }

/-- `heartbeat_update`. An unknown device gets no answer and leaves no trace. -/
def Inner.heartbeatUpdate (r : Inner) (now : UInt64) (u : HeartbeatUpdate) :
    Option HeartbeatReply × Inner :=
  match r.devices.lookup u.deviceId with
  | none => (none, r)
  | some d =>
      (some ⟨r.policyVersion, r.policy, r.desiredSoftware, r.policySeq⟩,
        { r with devices := r.devices.insert u.deviceId (r.refreshed now u d) })

/-- The critical section of `set_policy`; `false` when nothing changed (and nothing is persisted). -/
def Inner.setPolicy (r : Inner) (p : Policy) : Bool × Inner :=
  if (r.policy.map fun q => q.version) = some p.version then (false, r)
  else (true, { r with policySeq := r.policySeq + 1, policy := some p })

/-- The critical section of `set_desired_software`. -/
def Inner.setDesiredSoftware (r : Inner) (version : String) : Bool × Inner :=
  if r.desiredSoftware = version then (false, r)
  else (true, { r with policySeq := r.policySeq + 1, desiredSoftware := version })

/-! ## §3 Snapshots. -/

structure RegistrySnapshot where
  devices : List DeviceRecord
  policy : Option Policy
  policySeq : Nat
  desiredSoftware : String
  deriving DecidableEq, Repr

/-- `snapshot_locked`. `policy_to_snapshot` copies field by field into a type with the same
fields. -/
def Inner.snapshot (r : Inner) : RegistrySnapshot where
  devices := r.devices.entries.map fun e => e.2
  policy := r.policy
  policySeq := r.policySeq
  desiredSoftware := r.desiredSoftware

/-- The derived `Serialize` of `DeviceRecord`. -/
def DeviceRecord.toJson (d : DeviceRecord) : Json :=
  .obj [
    ("device_id", Codec.string.encode d.deviceId),
    ("hardware_id", Codec.string.encode d.hardwareId),
    ("software_version", Codec.string.encode d.softwareVersion),
    ("reported_policy_version", Codec.string.encode d.reportedPolicyVersion),
    ("reported_software_version", Codec.string.encode d.reportedSoftwareVersion),
    ("desired_policy_version", Codec.u64.encode d.desiredPolicyVersion),
    ("desired_software_version", Codec.string.encode d.desiredSoftwareVersion),
    ("desired_seq", Codec.nat.encode d.desiredSeq),
    ("health", Codec.i32.encode d.health),
    ("last_seen_secs", Codec.u64.encode d.lastSeenSecs),
    ("uptime_secs", Codec.u64.encode d.uptimeSecs),
    ("cpu_usage", Codec.f64.encode d.cpuUsage),
    ("memory_bytes", Codec.u64.encode d.memoryBytes),
    ("active_connections", Codec.u64.encode d.activeConnections)]

/-- The derived `Deserialize` of `DeviceRecord`. -/
def DeviceRecord.ofJson (j : Json) : Option DeviceRecord := do
  let deviceId ← Codec.string.get j "device_id"
  let hardwareId ← Codec.string.get j "hardware_id"
  let softwareVersion ← Codec.string.get j "software_version"
  let reportedPolicyVersion ← Codec.string.get j "reported_policy_version"
  let reportedSoftwareVersion ← Codec.string.get j "reported_software_version"
  let desiredPolicyVersion ← Codec.u64.get j "desired_policy_version"
  let desiredSoftwareVersion ← Codec.string.get j "desired_software_version"
  let desiredSeq ← Codec.nat.get j "desired_seq"
  let health ← Codec.i32.get j "health"
  let lastSeenSecs ← Codec.u64.get j "last_seen_secs"
  let uptimeSecs ← Codec.u64.get j "uptime_secs"
  let cpuUsage ← Codec.f64.get j "cpu_usage"
  let memoryBytes ← Codec.u64.get j "memory_bytes"
  let activeConnections ← Codec.u64.get j "active_connections"
  return { deviceId, hardwareId, softwareVersion, reportedPolicyVersion, reportedSoftwareVersion,
           desiredPolicyVersion, desiredSoftwareVersion, desiredSeq, health, lastSeenSecs,
           uptimeSecs, cpuUsage, memoryBytes, activeConnections }

def DeviceRecord.codec : Codec DeviceRecord := ⟨DeviceRecord.toJson, DeviceRecord.ofJson⟩

/-- The derived codec of `PolicySnapshot`. -/
def policyCodec : Codec Policy where
  encode p := .obj [
    ("version", Codec.u64.encode p.version),
    ("max_connections", Codec.u32.encode p.maxConnections),
    ("idle_timeout_secs", Codec.u64.encode p.idleTimeoutSecs),
    ("default_upstream", Codec.string.encode p.defaultUpstream),
    ("rules_json", Codec.string.encode p.rulesJson)]
  decode j := do
    let version ← Codec.u64.get j "version"
    let maxConnections ← Codec.u32.get j "max_connections"
    let idleTimeoutSecs ← Codec.u64.get j "idle_timeout_secs"
    let defaultUpstream ← Codec.string.get j "default_upstream"
    let rulesJson ← Codec.string.get j "rules_json"
    return { version, maxConnections, idleTimeoutSecs, defaultUpstream, rulesJson }

/-- The derived codec of `RegistrySnapshot`. -/
def RegistrySnapshot.codec : Codec RegistrySnapshot where
  encode s := .obj [
    ("devices", (Codec.list DeviceRecord.codec).encode s.devices),
    ("policy", (Codec.option policyCodec).encode s.policy),
    ("policy_seq", Codec.nat.encode s.policySeq),
    ("desired_software", Codec.string.encode s.desiredSoftware)]
  decode j := do
    let devices ← (Codec.list DeviceRecord.codec).get j "devices"
    -- a missing `Option` member is `None`
    let policy ← (Codec.option policyCodec).getOr none j "policy"
    let policySeq ← Codec.nat.get j "policy_seq"
    let desiredSoftware ← Codec.string.get j "desired_software"
    return { devices, policy, policySeq, desiredSoftware }

/-- A record whose liveness was reset. -/
def DeviceRecord.unseen (d : DeviceRecord) : DeviceRecord := { d with lastSeenSecs := 0 }

/-- The map `load` collects, keyed by each record's own id, with the liveness field reset. -/
def collectDevices (records : List DeviceRecord) : Devices :=
  records.foldl (fun m d => m.insert d.deviceId d.unseen) ∅

def RegistrySnapshot.restore (s : RegistrySnapshot) : Inner where
  devices := collectDevices s.devices
  policy := s.policy
  policySeq := s.policySeq
  desiredSoftware := s.desiredSoftware

/-- `Registry::load` on what is at the path: nothing, or a file. `none` is the hard startup error. -/
def load : Option Json → Option Inner
  | none => some .empty
  | some file => (RegistrySnapshot.codec.decode file).map RegistrySnapshot.restore

/-! ## §4 Sequences of operations. -/

inductive Op
  | register (now : UInt64) (args : RegisterArgs)
  | heartbeat (now : UInt64) (u : HeartbeatUpdate)
  | setPolicy (p : Policy)
  | setDesiredSoftware (version : String)
  deriving DecidableEq, Repr

/-- One operation: whether it persists, and the registry after it. -/
def Op.apply (op : Op) (r : Inner) : Bool × Inner :=
  match op with
  | .register now args => (true, (r.register now args).2)
  | .heartbeat now u => (false, (r.heartbeatUpdate now u).2)
  | .setPolicy p => r.setPolicy p
  | .setDesiredSoftware version => r.setDesiredSoftware version

/-- Everything an operation can do to registry `r`. -/
inductive Effect (r : Inner) : Op → Bool × Inner → Prop
  /-- The version or software is the current one, or the device is unknown. -/
  | kept (op : Op) : Effect r op (false, r)
  | registered (now : UInt64) (args : RegisterArgs) :
      Effect r (.register now args)
        (true, { r with devices := r.devices.insert args.deviceId (r.newRecord now args) })
  | refreshed (now : UInt64) (u : HeartbeatUpdate) (d : DeviceRecord) :
      r.devices.lookup u.deviceId = some d →
      Effect r (.heartbeat now u)
        (false, { r with devices := r.devices.insert u.deviceId (r.refreshed now u d) })
  | policy (p : Policy) : (r.policy.map fun q => q.version) ≠ some p.version →
      Effect r (.setPolicy p) (true, { r with policySeq := r.policySeq + 1, policy := some p })
  | software (version : String) : r.desiredSoftware ≠ version →
      Effect r (.setDesiredSoftware version)
        (true, { r with policySeq := r.policySeq + 1, desiredSoftware := version })

theorem Op.effect (op : Op) (r : Inner) : Effect r op (op.apply r) := by
  cases op with
  | register now args => exact .registered now args
  | heartbeat now u =>
      show Effect r (.heartbeat now u) (false, (r.heartbeatUpdate now u).2)
      unfold Inner.heartbeatUpdate
      cases hl : r.devices.lookup u.deviceId with
      | none => exact .kept _
      | some d => exact .refreshed now u d hl
  | setPolicy p =>
      show Effect r (.setPolicy p) (r.setPolicy p)
      unfold Inner.setPolicy
      split
      · exact .kept _
      · exact .policy p (by assumption)
  | setDesiredSoftware version =>
      show Effect r (.setDesiredSoftware version) (r.setDesiredSoftware version)
      unfold Inner.setDesiredSoftware
      split
      · exact .kept _
      · exact .software version (by assumption)

/-- The registry in memory and the file at its path. -/
structure ControlPlane where
  inner : Inner
  file : Option Json

/-- The file `write_snapshot` leaves. -/
def Inner.file (r : Inner) : Json := RegistrySnapshot.codec.encode r.snapshot

/-- One operation and, if it persists, its snapshot, with no I/O error. -/
def ControlPlane.step (w : ControlPlane) (op : Op) : ControlPlane :=
  let (persists, r) := op.apply w.inner
  ⟨r, if persists then some r.file else w.file⟩

/-- A control plane that starts without a file and handles the operations one after the other. -/
def ControlPlane.after (ops : List Op) : ControlPlane := ops.foldl ControlPlane.step ⟨.empty, none⟩

end Edgewarden.Registry
