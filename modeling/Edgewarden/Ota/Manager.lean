/-
# Edgewarden.Ota.Manager — `OtaManager` of `edge-ota/src/lib.rs`, request by request.

The manager's methods are programs over `FaultIo`: pure assignments to the manager's fields, and
one I/O request for every file operation of the source, in the source's order. `?` is `throw` with
the fields as they stand, so an in-memory state that runs ahead of a failed journal write is in the
model, as in the source.

* A file holds `Contents`: a whole record, or bytes that do not decode (`garbled`). Only `rename`
  puts anything under the journal's name.
* SHA-256, Ed25519 key decoding and Ed25519 verification are the fields of `Crypto`, uninterpreted.
* `sync_all` results are ignored by the source (`let _ =`), and so is the answer here.
-/
import Edgewarden.Lib.Method
import Edgewarden.Lib.Text
import Edgewarden.Ota.Version
import Mathlib.Algebra.Ring.Nat
import Mathlib.Tactic.Simps.Basic

namespace Edgewarden.Ota

open Edgewarden.FaultIo Edgewarden.Text

abbrev Bytes := List UInt8

/-! ## §1 Data. -/

inductive Slot
  | A
  | B
  deriving DecidableEq, Repr

def Slot.other : Slot → Slot
  | .A => .B
  | .B => .A

@[simp] theorem Slot.other_ne (s : Slot) : s.other ≠ s := by cases s <;> decide

@[simp] theorem Slot.other_other (s : Slot) : s.other.other = s := by cases s <;> rfl

inductive OtaState
  | idle
  | downloading
  | verifying
  | staged
  | rebootPending
  | bootingCandidate
  | healthChecking
  | committed
  | rollbackPending
  | rolledBack
  | failed
  deriving DecidableEq, Repr

/-- The `{:?}` rendering. -/
def OtaState.debug : OtaState → String
  | .idle => "Idle"
  | .downloading => "Downloading"
  | .verifying => "Verifying"
  | .staged => "Staged"
  | .rebootPending => "RebootPending"
  | .bootingCandidate => "BootingCandidate"
  | .healthChecking => "HealthChecking"
  | .committed => "Committed"
  | .rollbackPending => "RollbackPending"
  | .rolledBack => "RolledBack"
  | .failed => "Failed"

/-- `Idle | Committed | RolledBack | Failed`: the states in which `start_download` may begin. -/
def OtaState.resting : OtaState → Bool
  | .idle | .committed | .rolledBack | .failed => true
  | _ => false

/-- The states from which the candidate can still be booted or committed. -/
def OtaState.bootable : OtaState → Bool
  | .staged | .rebootPending | .bootingCandidate | .healthChecking => true
  | _ => false

structure OtaManifest where
  version : String
  artifactSha256Hex : String
  signatureHex : String
  sizeBytes : UInt64
  deriving DecidableEq, Repr

/-- `OtaError`. I/O errors carry no payload here: no method looks inside one. -/
inductive OtaError
  | io
  | decode
  | hashMismatch (expected got : String)
  | badSignature
  | invalidTransition (s : OtaState)
  | downgradeRejected (candidate committed : String)
  | badKey (detail : String)
  | other (detail : String)
  deriving DecidableEq, Repr

/-- The journal record `PersistedOta`. -/
structure PersistedOta where
  state : OtaState
  activeSlot : Slot
  candidateSlot : Option Slot
  candidateVersion : Option String
  lastError : Option String
  highestCommittedVersion : Option String
  deriving DecidableEq, Repr

/-- `OtaManager` without its directory, which is the disk the requests act on. -/
structure OtaManager where
  state : OtaState
  activeSlot : Slot
  candidateSlot : Option Slot
  candidateVersion : Option String
  candidateBytes : Option Bytes
  lastError : Option String
  highestCommittedVersion : Option String
  verifyingKey : Bytes
  deriving DecidableEq, Repr

namespace OtaManager

/-- What `persist` writes. -/
@[simps] def record (m : OtaManager) : PersistedOta where
  state := m.state
  activeSlot := m.activeSlot
  candidateSlot := m.candidateSlot
  candidateVersion := m.candidateVersion
  lastError := m.lastError
  highestCommittedVersion := m.highestCommittedVersion

/-- The manager `open` builds when there is no journal. -/
def initial (key : Bytes) : OtaManager where
  state := .idle
  activeSlot := .A
  candidateSlot := none
  candidateVersion := none
  candidateBytes := none
  lastError := none
  highestCommittedVersion := none
  verifyingKey := key

/-- The manager `open` builds from a decoded journal. -/
def ofRecord (key : Bytes) (p : PersistedOta) : OtaManager where
  state := p.state
  activeSlot := p.activeSlot
  candidateSlot := p.candidateSlot
  candidateVersion := p.candidateVersion
  candidateBytes := none
  lastError := p.lastError
  highestCommittedVersion := p.highestCommittedVersion
  verifyingKey := key

/-- The bytes `verify` hashes and stages. -/
def buffered (m : OtaManager) : Bytes := m.candidateBytes.getD []

/-- The slot `verify` stages into. -/
def stagingSlot (m : OtaManager) : Slot := m.candidateSlot.getD .B

@[simp] theorem record_ofRecord (key : Bytes) (p : PersistedOta) : (ofRecord key p).record = p := rfl

end OtaManager

/-- The uninterpreted primitives: `Sha256::digest`, `VerifyingKey::from_bytes`,
`VerifyingKey::verify(..).is_ok()`. -/
structure Crypto where
  sha256 : Bytes → Bytes
  keyFromBytes : Bytes → Except String Bytes
  verify : Bytes → Bytes → Bytes → Bool

/-- `bytes` passes Ed25519 verification under the device key for some signature. -/
def Crypto.Passes (crypto : Crypto) (key bytes : Bytes) : Prop :=
  ∃ vk sig, crypto.keyFromBytes key = .ok vk ∧ crypto.verify vk bytes sig = true

/-! ## §2 Disk and requests. -/

/-- `slot-A` / `slot-B`. -/
structure SlotDir where
  artifact : Option Bytes
  version : Option (Contents String)
  deriving DecidableEq, Repr

structure Disk where
  journal : Option (Contents PersistedOta)
  tmp : Option (Contents PersistedOta)
  slots : Slot → SlotDir

def Disk.setSlot (d : Disk) (s : Slot) (f : SlotDir → SlotDir) : Disk :=
  { d with slots := fun t => if t = s then f (d.slots t) else d.slots t }

@[simp] theorem Disk.setSlot_journal (d : Disk) (s : Slot) (f : SlotDir → SlotDir) :
    (d.setSlot s f).journal = d.journal := rfl

@[simp] theorem Disk.setSlot_self (d : Disk) (s : Slot) (f : SlotDir → SlotDir) :
    (d.setSlot s f).slots s = f (d.slots s) := if_pos rfl

inductive Req
  | createDir
  | readJournal
  | writeTmp (p : PersistedOta)
  | syncTmp
  | renameJournal
  | syncDir
  | createSlotDir (s : Slot)
  | writeArtifact (s : Slot) (bytes : Bytes)
  | writeVersion (s : Slot) (v : String)
  deriving DecidableEq, Repr

/-- The requests `persist` consists of. -/
def Req.isJournal : Req → Bool
  | .writeTmp _ | .syncTmp | .renameJournal | .syncDir => true
  | _ => false

/-- The slot directory a request writes to. -/
def Req.slot : Req → Option Slot
  | .createSlotDir s => some s
  | .writeArtifact s _ => some s
  | .writeVersion s _ => some s
  | _ => none

/-- What an interrupted write leaves: nothing touched, or some bytes. -/
inductive Tear
  | untouched
  | torn (left : Bytes)
  deriving DecidableEq, Repr

def Req.complete : Req → Disk → Disk
  | .writeTmp p, d => { d with tmp := some (.whole p) }
  | .renameJournal, d =>
      match d.tmp with
      | some c => { d with journal := some c, tmp := none }
      | none => d
  | .writeArtifact s bytes, d => d.setSlot s fun f => { f with artifact := some bytes }
  | .writeVersion s v, d => d.setSlot s fun f => { f with version := some (.whole v) }
  | _, d => d

def Req.tear : Req → Tear → Disk → Disk
  | .writeTmp _, .torn _, d => { d with tmp := some .garbled }
  | .writeArtifact s _, .torn left, d => d.setSlot s fun f => { f with artifact := some left }
  | .writeVersion s _, .torn _, d => d.setSlot s fun f => { f with version := some .garbled }
  | _, _, d => d

def device : Device Req Tear Disk where
  complete := Req.complete
  tear := Req.tear

/-- Only `rename` touches the journal, and only when it completes. -/
theorem after_journal {q : Req} {d : Disk} {f : Fault Tear} (h : q ≠ .renameJournal ∨ f ≠ .ok) :
    (device.after q d f).journal = d.journal := by
  cases f with
  | ok =>
      rcases h with hq | hf
      · cases q <;> first | rfl | exact absurd rfl hq
      · exact absurd rfl hf
  | fail t => cases q <;> cases t <;> rfl
  | die t => cases q <;> cases t <;> rfl

/-- A completed `rename` puts the temporary file's contents under the journal's name. -/
theorem after_rename {d : Disk} {c : Contents PersistedOta} (h : d.tmp = some c) :
    (device.after .renameJournal d .ok).journal = some c := by
  simp [device, Device.after, Req.complete, h]

/-- A request that names no slot leaves both slots alone. -/
theorem after_slots {q : Req} {d : Disk} {f : Fault Tear} (h : q.slot = none) :
    (device.after q d f).slots = d.slots := by
  cases q with
  | renameJournal =>
      cases f with
      | ok =>
          cases ht : d.tmp <;> simp [device, Device.after, Req.complete, ht]
      | fail t => cases t <;> rfl
      | die t => cases t <;> rfl
  | createSlotDir s => cases h
  | writeArtifact s bytes => cases h
  | writeVersion s v => cases h
  | _ =>
      cases f with
      | ok => rfl
      | fail t => cases t <;> rfl
      | die t => cases t <;> rfl

/-- A request that names a slot leaves the other one alone. -/
theorem after_slots_ne {q : Req} {d : Disk} {f : Fault Tear} {s t : Slot} (h : q.slot = some s)
    (hne : t ≠ s) : (device.after q d f).slots t = d.slots t := by
  cases q <;> simp only [Req.slot, Option.some.injEq, reduceCtorEq] at h
  all_goals
    subst h
    rcases f with _ | ⟨_ | left⟩ | ⟨_ | left⟩ <;>
      simp [device, Device.after, Req.complete, Req.tear, Disk.setSlot, hne]

/-! ## §3 The methods. -/

/-- A method of the manager. -/
abbrev OtaM := Method OtaError OtaManager Req

/-- `...?` on a file operation. -/
def tryRequest (q : Req) : OtaM Unit := requestOr .io q

def persist : OtaM Unit := do
  let m ← get
  tryRequest (.writeTmp m.record)
  let _ ← request .syncTmp
  tryRequest .renameJournal
  let _ ← request .syncDir

def setState (s : OtaState) : OtaM Unit := do
  modify fun m => { m with state := s }
  persist

/-- The rollback-protection test of `start_download`. -/
def OtaManager.downgradeGate (m : OtaManager) (manifest : OtaManifest) : Except OtaError Bool :=
  match m.highestCommittedVersion with
  | some committed =>
      if compareVersions manifest.version committed ≠ .gt then
        .error (.downgradeRejected manifest.version committed)
      else .ok true
  | none => .ok true

/-- What `start_download` decides before it assigns anything: `ok false` for a duplicate command,
an error while busy or for a downgrade, `ok true` to begin. -/
def OtaManager.startGate (m : OtaManager) (manifest : OtaManifest) : Except OtaError Bool :=
  match m.candidateVersion with
  | some v =>
      if v = manifest.version ∧ ¬ m.state.resting then .ok false
      else if ¬ m.state.resting then
        .error (.other ("busy in " ++ m.state.debug ++ ", cannot start " ++ manifest.version))
      else m.downgradeGate manifest
  | none => m.downgradeGate manifest

def startDownload (manifest : OtaManifest) : OtaM Bool := do
  let m ← get
  match m.startGate manifest with
  | .error e => throw e
  | .ok false => return false
  | .ok true =>
      modify fun m => { m with
        candidateSlot := some m.activeSlot.other
        candidateVersion := some manifest.version
        candidateBytes := none
        lastError := none }
      setState .downloading
      return true

/-- `ingest_chunk`. The bound is checked in `u64`, where the sum wraps. -/
def ingestChunk (chunk : Bytes) (manifest : OtaManifest) : OtaM Unit := do
  let m ← get
  if m.state ≠ .downloading then
    throw (.invalidTransition m.state)
  if chunk.length % 2 ^ 64 > (manifest.sizeBytes + 1024 * 1024).toNat then
    throw (.other "chunk exceeds declared size")
  set { m with candidateBytes := some (m.buffered ++ chunk) }

/-- The signature check of `verify`: hex, length, key, then Ed25519. `ok false` is a signature that
was decoded and rejected. -/
def checkSignature (crypto : Crypto) (key bytes : Bytes) (manifest : OtaManifest) :
    Except OtaError Bool :=
  match hexDecode (trim manifest.signatureHex.toList) with
  | none => .error .badSignature
  | some sig =>
      if sig.length ≠ 64 then .error .badSignature
      else
        match crypto.keyFromBytes key with
        | .error e => .error (.badKey e)
        | .ok vk => .ok (crypto.verify vk bytes sig)

def verify (crypto : Crypto) (manifest : OtaManifest) : OtaM Unit := do
  let m ← get
  if m.state ≠ .downloading then
    throw (.invalidTransition m.state)
  setState .verifying
  let bytes := m.buffered
  let got := hexEncode (crypto.sha256 bytes)
  if got ≠ toLowercase manifest.artifactSha256Hex.toList then
    modify fun m => { m with lastError := some "hash mismatch" }
    setState .failed
    throw (.hashMismatch manifest.artifactSha256Hex (String.ofList got))
  else
    match checkSignature crypto m.verifyingKey bytes manifest with
    | .error e => throw e
    | .ok false =>
        modify fun m => { m with lastError := some "bad signature" }
        setState .failed
        throw .badSignature
    | .ok true =>
        tryRequest (.createSlotDir m.stagingSlot)
        tryRequest (.writeArtifact m.stagingSlot bytes)
        tryRequest (.writeVersion m.stagingSlot manifest.version)
        setState .staged

def markRebootPending : OtaM Unit := do
  let m ← get
  if m.state ≠ .staged then
    throw (.invalidTransition m.state)
  setState .rebootPending

def simulateReboot : OtaM Unit := do
  let m ← get
  if m.state ≠ .rebootPending then
    throw (.invalidTransition m.state)
  setState .bootingCandidate
  setState .healthChecking

def rollback : OtaM Unit := do
  let m ← get
  if ¬ (m.state = .rollbackPending ∨ m.state = .healthChecking ∨ m.state = .failed) then
    throw (.invalidTransition m.state)
  modify fun m => { m with candidateSlot := none, candidateVersion := none, candidateBytes := none }
  setState .rolledBack

/-- The watermark after committing candidate `v`. -/
def raiseWatermark (v : Option String) (highest : Option String) : Option String :=
  match v with
  | none => highest
  | some v =>
      let dominated : Bool :=
        match highest with
        | some h => compareVersions v h == .gt
        | none => true
      if dominated then some v else highest

def healthCheck (healthy : Bool) (detail : String) : OtaM Unit := do
  let m ← get
  if m.state ≠ .healthChecking then
    throw (.invalidTransition m.state)
  if healthy then
    modify fun m => { m with
      activeSlot := m.candidateSlot.getD m.activeSlot.other
      highestCommittedVersion := raiseWatermark m.candidateVersion m.highestCommittedVersion
      candidateSlot := none
      candidateVersion := none
      candidateBytes := none }
    setState .committed
  else
    modify fun m => { m with lastError := some detail }
    setState .rollbackPending
    rollback

def recover : OtaM OtaState := do
  let m ← get
  match m.state with
  | .downloading | .verifying =>
      modify fun m => { m with candidateBytes := none }
      setState .idle
  | .rebootPending | .bootingCandidate | .healthChecking => setState .healthChecking
  | _ => pure ()
  return (← get).state

/-! ## §4 The system of calls. -/

inductive Reply
  | unit
  | started (fresh : Bool)
  | state (s : OtaState)
  deriving DecidableEq, Repr

/-- The calls a run consists of; `kill` is the death of the process between two calls. -/
inductive Call
  | open
  | startDownload (manifest : OtaManifest)
  | ingestChunk (chunk : Bytes) (manifest : OtaManifest)
  | verify (manifest : OtaManifest)
  | markRebootPending
  | simulateReboot
  | healthCheck (healthy : Bool) (detail : String)
  | rollback
  | recover
  | kill
  deriving DecidableEq, Repr

/-- `OtaManager::open(dir, key)` on a disk with the given journal file. The previous manager, if
any, is gone when it starts. -/
def openManager (key : Bytes) (journal : Option (Contents PersistedOta)) :
    Prog (Option OtaManager) Req (Except OtaError OtaManager) :=
  Prog.call none .createDir fun
    | false => .done (.error .io)
    | true =>
        match journal with
        | some file =>
            Prog.call none .readJournal fun
              | false => .done (.error .io)
              | true =>
                  match file with
                  | .garbled => .done (.error .decode)
                  | .whole p => .done (.ok (OtaManager.ofRecord key p))
        | none => do
            let (r, m) ← persist.run.run (OtaManager.initial key)
            return r.map fun _ => m

/-- Run a method on the live manager; without one (before `open`, after a crash) there is nothing
to call and nothing happens. -/
def onManager {α : Type} (x : OtaM α) (reply : α → Reply) (w : World (Option OtaManager) Disk) :
    Prog (Option OtaManager) Req (Except OtaError Reply × Option OtaManager) :=
  match w.mem with
  | none => .done (.error (.other "no manager"), none)
  | some m => do
      let (r, m') ← x.run.run m
      return (r.map reply, some m')

def callProg (crypto : Crypto) (key : Bytes) (c : Call) (w : World (Option OtaManager) Disk) :
    Prog (Option OtaManager) Req (Except OtaError Reply × Option OtaManager) :=
  match c with
  | .open => do
      match ← openManager key w.disk.journal with
      | .ok m => return (.ok .unit, some m)
      | .error e => return (.error e, none)
  | .startDownload manifest => onManager (startDownload manifest) .started w
  | .ingestChunk chunk manifest => onManager (ingestChunk chunk manifest) (fun _ => .unit) w
  | .verify manifest => onManager (verify crypto manifest) (fun _ => .unit) w
  | .markRebootPending => onManager markRebootPending (fun _ => .unit) w
  | .simulateReboot => onManager simulateReboot (fun _ => .unit) w
  | .healthCheck healthy detail => onManager (healthCheck healthy detail) (fun _ => .unit) w
  | .rollback => onManager rollback (fun _ => .unit) w
  | .recover => onManager recover .state w
  | .kill => .done (.ok .unit, none)

/-- The OTA system of one device: fixed primitives and a fixed verifying key. -/
def ota (crypto : Crypto) (key : Bytes) :
    System Call (Option OtaManager) Req Tear Disk (Except OtaError Reply) where
  dev := device
  dead := none
  prog := callProg crypto key

abbrev OtaWorld := World (Option OtaManager) Disk
abbrev OtaStep := Step Call (Option OtaManager) Req Tear Disk (Except OtaError Reply)
abbrev Schedule := List (Call × List (Fault Tear))

/-- A device before its first `open`: no process, no journal, whatever the factory put in the
slots. -/
def factory (slots : Slot → SlotDir) : OtaWorld := ⟨none, ⟨none, none, slots⟩⟩

/-! ## §5 Release signing.

`sign_artifact`, and the primitives tabulated on one release key and the two artifacts it signed,
`[]` and `[1]`. The concrete runs of the modules below are runs of this instance. -/

/-- `sign_artifact`: the hex digest and the hex signature, over the artifact bytes alone. -/
def signArtifact (crypto : Crypto) (sign : Bytes → Bytes) (bytes : Bytes) : String × String :=
  (String.ofList (hexEncode (crypto.sha256 bytes)), String.ofList (hexEncode (sign bytes)))

/-- The manifest of a signed artifact, under a version label of the sender's choice. -/
def signedManifest (crypto : Crypto) (sign : Bytes → Bytes) (bytes : Bytes) (version : String) :
    OtaManifest :=
  let (sha, sig) := signArtifact crypto sign bytes
  ⟨version, sha, sig, UInt64.ofNat bytes.length⟩

def releaseKey : Bytes :=
  [215, 90, 152, 1, 130, 177, 10, 183, 213, 75, 254, 211, 201, 100, 7, 58, 14, 225, 114, 243, 218,
   166, 35, 37, 175, 2, 26, 104, 247, 7, 81, 26]

/-- The release signatures of `[]` and of `[1]`. -/
def releaseSign : Bytes → Bytes
  | [] =>
      [229, 86, 67, 0, 195, 96, 172, 114, 144, 134, 226, 204, 128, 110, 130, 138, 132, 135, 127, 30,
       184, 229, 217, 116, 216, 115, 224, 101, 34, 73, 1, 85, 95, 184, 130, 21, 144, 163, 59, 172,
       198, 30, 57, 112, 28, 249, 180, 107, 210, 91, 245, 240, 89, 91, 190, 36, 101, 81, 65, 67,
       142, 122, 16, 11]
  | [1] =>
      [90, 44, 80, 196, 127, 13, 8, 35, 14, 117, 74, 50, 77, 156, 1, 19, 133, 9, 139, 197, 255, 96,
       39, 148, 134, 88, 144, 90, 1, 77, 147, 85, 6, 160, 229, 80, 246, 19, 147, 239, 113, 229, 13,
       198, 18, 25, 129, 80, 28, 170, 211, 253, 46, 39, 45, 147, 157, 189, 142, 231, 90, 232, 121,
       15]
  | _ => []

def tabulated : Crypto where
  sha256
    | [] =>
        [227, 176, 196, 66, 152, 252, 28, 20, 154, 251, 244, 200, 153, 111, 185, 36, 39, 174, 65,
         228, 100, 155, 147, 76, 164, 149, 153, 27, 120, 82, 184, 85]
    | [1] =>
        [75, 245, 18, 47, 52, 69, 84, 197, 59, 222, 46, 187, 140, 210, 183, 227, 209, 96, 10, 214,
         49, 195, 133, 165, 215, 204, 226, 60, 119, 133, 69, 154]
    | _ => []
  keyFromBytes key := if key = releaseKey then .ok key else .error "not tabulated"
  verify vk bytes sig := 
    decide (vk = releaseKey ∧ (bytes = [] ∨ bytes = [1]) ∧ sig = releaseSign bytes)

/-- The six calls of one complete update, with no fault. -/
def updateCalls (manifest : OtaManifest) (bytes : Bytes) : Schedule :=
  [(.startDownload manifest, []), (.ingestChunk bytes manifest, []), (.verify manifest, []),
    (.markRebootPending, []), (.simulateReboot, []), (.healthCheck true "", [])]

/-- ... with a signed artifact. -/
def fullUpdate (bytes : Bytes) (version : String) : Schedule :=
  updateCalls (signedManifest tabulated releaseSign bytes version) bytes

/-- Slots as the factory ships them for the concrete runs: nothing in either. -/
def emptySlots : Slot → SlotDir := fun _ => ⟨none, none⟩

end Edgewarden.Ota
