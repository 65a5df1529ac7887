/-
# Edgewarden.Ota.Update — the update path when nothing goes wrong.

The quiet run of each method (every request completes) in closed form, and `update_commits`: a
manifest that passes the gate, the hash and the signature is committed by the six calls of an
update. The impossibility half of the results about version order is built from such runs.
-/
import Edgewarden.Ota.Micro

namespace Edgewarden.Ota

open Edgewarden.FaultIo Edgewarden.Text

/-! ## §1 Quiet runs of methods. -/

/-- The disk after `persist` wrote record `p`. -/
def Disk.journaling (d : Disk) (p : PersistedOta) : Disk :=
  { d with journal := some (.whole p), tmp := none }

section Quiet

variable {α β : Type} {m m' : OtaManager} {d d' : Disk}

theorem quiet_setState (s : OtaState) (m : OtaManager) (d : Disk) :
    Method.quiet device (setState s) m d =
      ((.ok (), { m with state := s }), d.journaling { m with state := s }.record) := rfl

theorem quiet_startDownload {manifest : OtaManifest} (h : m.startGate manifest = .ok true) :
    Method.quiet device (startDownload manifest) m d =
      ((.ok true, m.begun manifest.version), d.journaling (m.begun manifest.version).record) := by
  unfold startDownload
  rw [Method.quiet_get]
  simp only [h]
  rfl

theorem quiet_ingestChunk {chunk : Bytes} {manifest : OtaManifest} (hs : m.state = .downloading)
    (hsize : chunk.length % 2 ^ 64 ≤ (manifest.sizeBytes + 1024 * 1024).toNat) :
    Method.quiet device (ingestChunk chunk manifest) m d =
      ((.ok (), { m with candidateBytes := some (m.buffered ++ chunk) }), d) := by
  unfold ingestChunk
  rw [Method.quiet_get]
  have hfits : ¬ chunk.length % 2 ^ 64 > (manifest.sizeBytes + 1024 * 1024).toNat :=
    Nat.not_lt.mpr hsize
  simp only [hs, ne_eq, not_true_eq_false, if_false, if_neg hfits]
  rfl

/-- What `verify` leaves on disk: the staged slot and the `Staged` record. -/
def Disk.staging (d : Disk) (m : OtaManager) (v : String) : Disk :=
  (d.setSlot m.stagingSlot fun _ => ⟨some m.buffered, some (.whole v)⟩).journaling
    { m with state := .staged }.record

/-- **`verify` without failures**, by the two checks. The errors of the signature check return as they are. -/
theorem quiet_verify_eq (crypto : Crypto) (manifest : OtaManifest) (d : Disk) (hs : m.state = .downloading) :
    Method.quiet device (verify crypto manifest) m d =
      if hexEncode (crypto.sha256 m.buffered) ≠ toLowercase manifest.artifactSha256Hex.toList then
        ((.error (.hashMismatch manifest.artifactSha256Hex
            (String.ofList (hexEncode (crypto.sha256 m.buffered)))),
          { m with state := .failed, lastError := some "hash mismatch" }),
          d.journaling { m with state := .failed, lastError := some "hash mismatch" }.record)
      else
        match checkSignature crypto m.verifyingKey m.buffered manifest with
        | .error e =>
            ((.error e, { m with state := .verifying }), d.journaling { m with state := .verifying }.record)
        | .ok false =>
            ((.error .badSignature, { m with state := .failed, lastError := some "bad signature" }),
              d.journaling { m with state := .failed, lastError := some "bad signature" }.record)
        | .ok true => ((.ok (), { m with state := .staged }), d.staging m manifest.version) := by
  unfold verify
  rw [Method.quiet_get]
  simp only [hs, ne_eq, not_true_eq_false, if_false]
  rw [Method.quiet_bind_ok (quiet_setState _ _ _)]
  split
  · rfl
  · cases checkSignature crypto m.verifyingKey m.buffered manifest with
    | error e => rfl
    | ok accepted =>
        cases accepted with
        | false => rfl
        | true =>
            -- the two slot writes together replace the slot's contents
            have hslots : ((d.setSlot m.stagingSlot fun f => { f with artifact := some m.buffered }).setSlot
                m.stagingSlot fun f => { f with version := some (.whole manifest.version) }).slots =
                (d.setSlot m.stagingSlot fun _ =>
                  ⟨some m.buffered, some (.whole manifest.version)⟩).slots := by
              funext t
              by_cases ht : t = m.stagingSlot <;> simp [Disk.setSlot, ht]
            refine Prod.ext rfl ?_
            show Disk.mk _ _ _ = Disk.mk _ _ _
            rw [Disk.mk.injEq]
            exact ⟨rfl, rfl, hslots⟩

theorem quiet_verify {crypto : Crypto} {manifest : OtaManifest} (hs : m.state = .downloading)
    (hhash : hexEncode (crypto.sha256 m.buffered) = toLowercase manifest.artifactSha256Hex.toList)
    (hsig : checkSignature crypto m.verifyingKey m.buffered manifest = .ok true) :
    Method.quiet device (verify crypto manifest) m d =
      ((.ok (), { m with state := .staged }), d.staging m manifest.version) := by
  rw [quiet_verify_eq crypto manifest d hs, if_neg (not_not.mpr hhash), hsig]

theorem quiet_markRebootPending (hs : m.state = .staged) :
    Method.quiet device markRebootPending m d =
      ((.ok (), { m with state := .rebootPending }),
        d.journaling { m with state := .rebootPending }.record) := by
  unfold markRebootPending
  rw [Method.quiet_get]
  simp only [hs, ne_eq, not_true_eq_false, if_false]
  rfl

theorem quiet_simulateReboot (hs : m.state = .rebootPending) :
    Method.quiet device simulateReboot m d =
      ((.ok (), { m with state := .healthChecking }),
        d.journaling { m with state := .healthChecking }.record) := by
  unfold simulateReboot
  rw [Method.quiet_get]
  simp only [hs, ne_eq, not_true_eq_false, if_false]
  rfl

theorem quiet_healthCheck {detail : String} (hs : m.state = .healthChecking) :
    Method.quiet device (healthCheck true detail) m d = ((.ok (), m.commit), d.journaling m.commit.record) := by
  unfold healthCheck
  rw [Method.quiet_get]
  simp only [hs, ne_eq, not_true_eq_false, if_false, if_true]
  rfl

end Quiet

/-! ## §2 Acknowledged commits, and an update that goes through. -/

/-- The candidate version of a `health_check(true)` that returned `Ok`. -/
def acknowledged (s : OtaStep) : Option String :=
  match s.call, s.event.reply with
  | .healthCheck true _, some (.ok _) => s.entry.mem.bind fun a => a.candidateVersion
  | _, _ => none

/-- The candidate versions committed by the successful `health_check(true)` calls, in order. -/
def committedVersions (steps : List OtaStep) : List String := steps.filterMap acknowledged

/-- What one reply adds to the list. -/
def acknowledgedBy (c : Call) (w : OtaWorld) (b : Except OtaError Reply) : List String :=
  match c, b with
  | .healthCheck true _, .ok _ => (w.mem.bind fun a => a.candidateVersion).toList
  | _, _ => []

theorem acknowledged_eq_bind (c : Call) (w : OtaWorld)
    (e : Event (Option OtaManager) Req Tear Disk (Except OtaError Reply)) :
    (acknowledged ⟨c, w, e⟩).toList = (e.reply.toList).flatMap (acknowledgedBy c w) := by
  cases e with
  | io _ _ _ _ _ =>
      cases c with
      | healthCheck healthy _ => cases healthy <;> rfl
      | _ => rfl
  | ret _ _ b _ =>
      cases c with
      | healthCheck healthy _ => cases healthy <;> cases b <;> simp [acknowledged, acknowledgedBy, Event.reply]
      | _ => rfl

theorem committedVersions_call (c : Call) (w : OtaWorld)
    (es : List (Event (Option OtaManager) Req Tear Disk (Except OtaError Reply))) :
    committedVersions (es.map (Step.mk c w)) =
      (es.filterMap Event.reply).flatMap (acknowledgedBy c w) := by
  unfold committedVersions
  rw [List.filterMap_eq_flatMap_toList, List.filterMap_eq_flatMap_toList, List.flatMap_map,
    List.flatMap_assoc]
  exact List.flatMap_congr fun e _ => acknowledged_eq_bind c w e

/-- The run of `sched` from `w` commits `vs` and then goes on as the run of `sched'` from `w'`. -/
def Continues (crypto : Crypto) (key : Bytes) (vs : List String) (sched : Schedule) (w : OtaWorld)
    (sched' : Schedule) (w' : OtaWorld) : Prop :=
  ((ota crypto key).run sched w).2 = ((ota crypto key).run sched' w').2 ∧
    committedVersions ((ota crypto key).run sched w).1 =
      vs ++ committedVersions ((ota crypto key).run sched' w').1

section Calls

variable {crypto : Crypto} {key : Bytes}

theorem Continues.trans {vs vs' : List String} {s s' s'' : Schedule} {w w' w'' : OtaWorld}
    (h : Continues crypto key vs s w s' w') (h' : Continues crypto key vs' s' w' s'' w'') :
    Continues crypto key (vs ++ vs') s w s'' w'' := by
  refine ⟨h.1.trans h'.1, ?_⟩
  rw [h.2, h'.2, List.append_assoc]

/-- One call that meets no fault, at the head of a schedule: the run goes on from what the quiet run of the
call leaves, and the call answers once. -/
theorem run_quiet {c : Call} {m m' : Option OtaManager} {d d' : Disk} {b : Except OtaError Reply}
    (rest : Schedule) (h : (callProg crypto key c ⟨m, d⟩).quiet device d = ((b, m'), d')) :
    ∃ es : List (Event (Option OtaManager) Req Tear Disk (Except OtaError Reply)),
      (ota crypto key).run ((c, []) :: rest) ⟨m, d⟩ =
        (es.map (Step.mk c ⟨m, d⟩) ++ ((ota crypto key).run rest ⟨m', d'⟩).1,
          ((ota crypto key).run rest ⟨m', d'⟩).2) ∧
      es.filterMap Event.reply = [b] := by
  set r := (callProg crypto key c ⟨m, d⟩).exec device none m [] d with hr
  have hworld : r.2 = ⟨m', d'⟩ := by
    rw [hr, Prog.exec_nil_world, h]
  have hreply : r.1.filterMap Event.reply = [b] := by
    rw [hr, Prog.exec_nil_reply, h]
  have hrun : (ota crypto key).run ((c, []) :: rest) ⟨m, d⟩ =
      (r.1.map (Step.mk c ⟨m, d⟩) ++ ((ota crypto key).run rest r.2).1,
        ((ota crypto key).run rest r.2).2) := rfl
  rw [hworld] at hrun
  exact ⟨r.1, hrun, hreply⟩

theorem run_quiet_call {c : Call} {m m' : Option OtaManager} {d d' : Disk}
    {b : Except OtaError Reply} (rest : Schedule)
    (h : (callProg crypto key c ⟨m, d⟩).quiet device d = ((b, m'), d')) :
    Continues crypto key (acknowledgedBy c ⟨m, d⟩ b) ((c, []) :: rest) ⟨m, d⟩ rest ⟨m', d'⟩ := by
  obtain ⟨es, hrun, hreply⟩ := run_quiet rest h
  have hcall := committedVersions_call c ⟨m, d⟩ es
  rw [hreply, List.flatMap_singleton] at hcall
  unfold Continues
  rw [hrun]
  refine ⟨rfl, ?_⟩
  unfold committedVersions at hcall ⊢
  rw [List.filterMap_append, hcall]

theorem quiet_onManager {α : Type} {x : OtaM α} {reply : α → Reply} {m m' : OtaManager}
    {d d' : Disk} {r : Except OtaError α} (h : Method.quiet device x m d = ((r, m'), d')) :
    (onManager x reply ⟨some m, d⟩).quiet device d = ((r.map reply, some m'), d') := by
  show (x.run.run m >>= fun r =>
    Prog.done (Except.map reply r.1, some r.2)).quiet device d = _
  unfold Method.quiet at h
  rw [Prog.quiet_bind, h]
  rfl

/-- A method call that meets no fault and returns `Ok`. -/
theorem run_quiet_method (crypto : Crypto) (key : Bytes) (c : Call) (rest : Schedule) {α : Type}
    {x : OtaM α} {reply : α → Reply} {m m' : OtaManager} {d d' : Disk} {a : α}
    (hprog : callProg crypto key c ⟨some m, d⟩ = onManager x reply ⟨some m, d⟩)
    (h : Method.quiet device x m d = ((.ok a, m'), d')) :
    Continues crypto key (acknowledgedBy c ⟨some m, d⟩ (.ok (reply a))) ((c, []) :: rest)
      ⟨some m, d⟩ rest ⟨some m', d'⟩ := by
  refine run_quiet_call rest ?_
  rw [hprog]
  exact quiet_onManager h

/-- Without a candidate `start_download` only asks for a version above the watermark. -/
theorem startGate_of_no_candidate {m : OtaManager} {manifest : OtaManifest}
    (hc : m.candidateVersion = none)
    (h : ∀ w, m.highestCommittedVersion = some w → compareVersions manifest.version w = .gt) :
    m.startGate manifest = .ok true := by
  unfold OtaManager.startGate OtaManager.downgradeGate
  rw [hc]
  cases hh : m.highestCommittedVersion with
  | none => rfl
  | some w => simp [h w hh]

/-- The manager an update with version `v` ends in. -/
def OtaManager.updated (m : OtaManager) (v : String) : OtaManager :=
  { m with
    state := .committed
    activeSlot := m.activeSlot.other
    candidateSlot := none
    candidateVersion := none
    candidateBytes := none
    lastError := none
    highestCommittedVersion := raiseWatermark (some v) m.highestCommittedVersion }

/-- **An update that passes the gate, the hash and the signature is committed**, and what follows
runs on the committed manager. -/
theorem update_commits {manifest : OtaManifest} {bytes : Bytes} {m : OtaManager} (d : Disk)
    (rest : Schedule) (hgate : m.startGate manifest = .ok true)
    (hsize : bytes.length % 2 ^ 64 ≤ (manifest.sizeBytes + 1024 * 1024).toNat)
    (hhash : hexEncode (crypto.sha256 bytes) = toLowercase manifest.artifactSha256Hex.toList)
    (hsig : checkSignature crypto m.verifyingKey bytes manifest = .ok true) :
    ∃ d', Continues crypto key [manifest.version] (updateCalls manifest bytes ++ rest) ⟨some m, d⟩
      rest ⟨some (m.updated manifest.version), d'⟩ := by
  -- the fields after the download began and after the bytes are in
  set m₁ := m.begun manifest.version
  set m₂ : OtaManager := { m₁ with candidateBytes := some bytes }
  set d₃ := (d.journaling m₁.record).staging m₂ manifest.version
  have h₁ := quiet_startDownload (d := d) hgate
  have h₂ : Method.quiet device (ingestChunk bytes manifest) m₁ (d.journaling m₁.record) =
      ((.ok (), m₂), d.journaling m₁.record) := quiet_ingestChunk rfl hsize
  have h₃ : Method.quiet device (verify crypto manifest) m₂ (d.journaling m₁.record) =
      ((.ok (), { m₂ with state := .staged }), d₃) := quiet_verify rfl hhash hsig
  have h₄ := quiet_markRebootPending (m := { m₂ with state := .staged }) (d := d₃) rfl
  set d₄ := d₃.journaling { m₂ with state := .rebootPending }.record
  have h₅ := quiet_simulateReboot (m := { m₂ with state := .rebootPending }) (d := d₄) rfl
  set d₅ := d₄.journaling { m₂ with state := .healthChecking }.record
  set d₆ := d₅.journaling (m.updated manifest.version).record
  have h₆ : Method.quiet device (healthCheck true "") { m₂ with state := .healthChecking } d₅ =
      ((.ok (), m.updated manifest.version), d₆) := quiet_healthCheck rfl
  have c₁ := run_quiet_method crypto key (.startDownload manifest)
    ((updateCalls manifest bytes).drop 1 ++ rest) rfl h₁
  have c₂ := run_quiet_method crypto key (.ingestChunk bytes manifest)
    ((updateCalls manifest bytes).drop 2 ++ rest) rfl h₂
  have c₃ := run_quiet_method crypto key (.verify manifest)
    ((updateCalls manifest bytes).drop 3 ++ rest) rfl h₃
  have c₄ := run_quiet_method crypto key .markRebootPending
    ((updateCalls manifest bytes).drop 4 ++ rest) rfl h₄
  have c₅ := run_quiet_method crypto key .simulateReboot
    ((updateCalls manifest bytes).drop 5 ++ rest) rfl h₅
  have c₆ := run_quiet_method crypto key (.healthCheck true "") rest rfl h₆
  exact ⟨d₆, c₁.trans (c₂.trans (c₃.trans (c₄.trans (c₅.trans c₆))))⟩

end Calls

end Edgewarden.Ota
