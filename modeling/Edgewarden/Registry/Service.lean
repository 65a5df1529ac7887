/-
# Edgewarden.Registry.Service — the unary RPCs of `control-plane/src/service.rs`.

The messages of the protocol and what the two handlers do with the registry. `pending_ota` is always
`None` and `has_pending_ota` always `false` in the source; both are left out of the responses.
-/
import Edgewarden.Registry.Core

namespace Edgewarden.Registry

open Edgewarden.Serde Edgewarden.State

/-! ## §1 Messages. -/

structure DeviceIdentity where
  deviceId : String
  hardwareId : String
  softwareVersion : String
  deriving DecidableEq, Repr

structure ResourceUsage where
  cpuUsage : F64
  memoryBytes : UInt64
  activeConnections : UInt64
  uptimeSecs : UInt64
  deriving DecidableEq, Repr

structure RegisterRequest where
  identity : Option DeviceIdentity
  reportedPolicyVersion : String
  reportedSoftwareVersion : String
  deriving DecidableEq, Repr

structure RegisterResponse where
  accepted : Bool
  desiredPolicyVersion : UInt64
  policy : Option Policy
  desiredSoftwareVersion : String
  deriving DecidableEq, Repr

structure HeartbeatRequest where
  deviceId : String
  reportedPolicyVersion : String
  reportedSoftwareVersion : String
  health : Int32
  usage : Option ResourceUsage
  activeConnections : UInt64
  deriving DecidableEq, Repr

structure HeartbeatResponse where
  desiredPolicyVersion : UInt64
  policy : Option Policy
  hasPolicy : Bool
  desiredSoftwareVersion : String
  desiredSeq : Nat
  deriving DecidableEq, Repr

/-- What an RPC can fail with. -/
inductive Status
  | notFound (message : String)
  | unavailable
  deriving DecidableEq, Repr

/-! ## §2 Handlers. -/

/-- `current_policy`. -/
def Inner.currentPolicy (r : Inner) : Option Policy × Nat := (r.policy, r.policySeq)

/-- `DeviceIdentity::default()`. -/
def DeviceIdentity.default : DeviceIdentity := ⟨"", "", ""⟩

/-- The registry call of the `register` handler. -/
def RegisterRequest.args (req : RegisterRequest) : RegisterArgs where
  deviceId := (req.identity.getD .default).deviceId
  hardwareId := (req.identity.getD .default).hardwareId
  softwareVersion := (req.identity.getD .default).softwareVersion
  reportedPolicy := req.reportedPolicyVersion
  reportedSoftware := req.reportedSoftwareVersion

/-- The `register` handler, with nothing in between its two registry calls. -/
def serveRegister (r : Inner) (now : UInt64) (req : RegisterRequest) : RegisterResponse × Inner :=
  let (rec', r') := r.register now req.args
  (⟨true, rec'.desiredPolicyVersion, r'.currentPolicy.1, rec'.desiredSoftwareVersion⟩, r')

/-- The registry call of the `heartbeat` handler. -/
def HeartbeatRequest.update (req : HeartbeatRequest) : HeartbeatUpdate where
  deviceId := req.deviceId
  reportedPolicy := req.reportedPolicyVersion
  reportedSoftware := req.reportedSoftwareVersion
  health := req.health
  cpu := (req.usage.map fun u => u.cpuUsage).getD F64.zero
  mem := (req.usage.map fun u => u.memoryBytes).getD 0
  active := req.activeConnections
  uptime := (req.usage.map fun u => u.uptimeSecs).getD 0

def serveHeartbeat (r : Inner) (now : UInt64) (req : HeartbeatRequest) :
    Except Status HeartbeatResponse × Inner :=
  match r.heartbeatUpdate now req.update with
  | (some reply, r') => (.ok ⟨reply.version, reply.policy, true, reply.software, reply.seq⟩, r')
  | (none, r') => (.error (.notFound "unknown device; register first"), r')

section

variable {r : Inner} {now : UInt64} {req : HeartbeatRequest}

theorem serveHeartbeat_known {d : DeviceRecord} (h : r.devices.lookup req.deviceId = some d) :
    (serveHeartbeat r now req).1 = .ok ⟨r.policyVersion, r.policy, true, r.desiredSoftware, r.policySeq⟩ := by
  have hd : r.devices.lookup req.update.deviceId = some d := h
  unfold serveHeartbeat Inner.heartbeatUpdate
  rw [hd]

theorem serveHeartbeat_unknown (h : r.devices.lookup req.deviceId = none) :
    (serveHeartbeat r now req).1 = .error (.notFound "unknown device; register first") := by
  have hd : r.devices.lookup req.update.deviceId = none := h
  unfold serveHeartbeat Inner.heartbeatUpdate
  rw [hd]

/-- An answered heartbeat carries the desired state of the registry it was handled on. -/
theorem serveHeartbeat_ok {hb : HeartbeatResponse} (h : (serveHeartbeat r now req).1 = .ok hb) :
    hb = ⟨r.policyVersion, r.policy, true, r.desiredSoftware, r.policySeq⟩ := by
  cases hl : r.devices.lookup req.deviceId with
  | none =>
      rw [serveHeartbeat_unknown hl] at h
      cases h
  | some d =>
      rw [serveHeartbeat_known hl] at h
      exact (Except.ok.inj h).symm

end

theorem serveHeartbeat_registry (r : Inner) (now : UInt64) (req : HeartbeatRequest) :
    (serveHeartbeat r now req).2 = ((Op.heartbeat now req.update).apply r).2 := by
  show _ = (r.heartbeatUpdate now req.update).2
  unfold serveHeartbeat
  cases h : r.heartbeatUpdate now req.update with
  | mk reply r' => cases reply <;> rfl

end Edgewarden.Registry
