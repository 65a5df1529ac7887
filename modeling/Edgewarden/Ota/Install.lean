/-
# Edgewarden.Ota.Install — no history keeps a device from its next update.

`crash_resumes` leads from any crash to a `start_download` that begins. Here the update goes on to its end: the
chunks come in one by one, the artifact is verified and written, and the health check commits it.

* `System.run_append` and `Answers.append` put the parts of such a run together, each part in closed form.
* `update_installs`: whatever a device has been through and wherever its process stopped, `open`, `recover`, the
  retreat for the state it comes up in, and the calls of an update all return `Ok` for every signed artifact above
  the watermark, in any chunks; it is then active under its version, and the slot that was active before is as
  it was.
-/
import Edgewarden.Ota.Download
import Edgewarden.Ota.Resume

namespace Edgewarden.Ota

open Edgewarden.FaultIo Edgewarden.Text

/-! ## §1 Parts of runs. -/

section Parts

variable {crypto : Crypto} {key : Bytes} {m : OtaManager} {d : Disk}

theorem Answers.append {xs ys : Schedule} {w w' w'' : OtaWorld} {bs bs' : List (Except OtaError Reply)}
    (h : Answers crypto key xs w bs w') (h' : Answers crypto key ys w' bs' w'') :
    Answers crypto key (xs ++ ys) w (bs ++ bs') w'' := by
  obtain ⟨hreplies, rfl⟩ := h
  obtain ⟨hreplies', rfl⟩ := h'
  refine ⟨?_, ?_⟩
  · rw [System.run_append, ← hreplies, ← hreplies']
    exact List.filterMap_append
  · rw [System.run_append]

/-- `rollback`, or the boot of a staged candidate that is then found unhealthy. -/
def retreatCalls : OtaState → Schedule
  | .staged => [(.markRebootPending, []), (.simulateReboot, []), (.healthCheck false "", [])]
  | .healthChecking => [(.healthCheck false "", [])]
  | .rollbackPending => [(.rollback, [])]
  | _ => []

/-- What a retreat leaves: a free manager, and everything that is committed. -/
structure Retreated (m : OtaManager) (d : Disk) (m' : OtaManager) (d' : Disk) : Prop where
  free : m'.candidateVersion = none ∨ m'.state.resting = true
  key : m'.verifyingKey = m.verifyingKey
  active : m'.activeSlot = m.activeSlot
  watermark : m'.highestCommittedVersion = m.highestCommittedVersion
  slots : d'.slots = d.slots

theorem answers_retreat (crypto : Crypto) (key : Bytes) (d : Disk) (hs : m.state.interrupted = false) :
    ∃ m' d', Retreated m d m' d' ∧
      Answers crypto key (retreatCalls m.state) ⟨some m, d⟩
        (List.replicate (retreatCalls m.state).length (.ok .unit)) ⟨some m', d'⟩ := by
  have hnil := answers_nil crypto key
  cases hm : m.state with
  | idle => exact ⟨m, d, ⟨.inr (by rw [hm]; rfl), rfl, rfl, rfl, rfl⟩, hnil _⟩
  | committed => exact ⟨m, d, ⟨.inr (by rw [hm]; rfl), rfl, rfl, rfl, rfl⟩, hnil _⟩
  | rolledBack => exact ⟨m, d, ⟨.inr (by rw [hm]; rfl), rfl, rfl, rfl, rfl⟩, hnil _⟩
  | failed => exact ⟨m, d, ⟨.inr (by rw [hm]; rfl), rfl, rfl, rfl, rfl⟩, hnil _⟩
  | rollbackPending =>
      have hrun := (hnil _).method (c := .rollback) rfl (quiet_rollback (d := d) hm)
      refine ⟨_, _, ?_, hrun⟩
      exact ⟨.inl rfl, rfl, rfl, rfl, rfl⟩
  | healthChecking =>
      have hrun := (hnil _).method (c := .healthCheck false "") rfl (quiet_unhealthy (d := d) hm)
      refine ⟨_, _, ?_, hrun⟩
      exact ⟨.inl rfl, rfl, rfl, rfl, rfl⟩
  | staged =>
      set m₁ : OtaManager := { m with state := .rebootPending }
      set m₂ : OtaManager := { m with state := .healthChecking }
      have hmark : Method.quiet device markRebootPending m d = ((.ok (), m₁), d.journaling m₁.record) :=
        quiet_markRebootPending hm
      have hboot : Method.quiet device simulateReboot m₁ (d.journaling m₁.record) =
          ((.ok (), m₂), (d.journaling m₁.record).journaling m₂.record) := quiet_simulateReboot rfl
      set d₂ := (d.journaling m₁.record).journaling m₂.record
      have hcheck : Method.quiet device (healthCheck false "") m₂ d₂ =
          ((.ok (), { m₂ with lastError := some "" }.rolledBack),
            d₂.journaling { m₂ with lastError := some "" }.rolledBack.record) := quiet_unhealthy rfl
      have hrun := (((hnil _).method (c := .healthCheck false "") rfl hcheck).method (c := .simulateReboot) rfl
        hboot).method (c := .markRebootPending) rfl hmark
      refine ⟨_, _, ?_, hrun⟩
      exact ⟨.inl rfl, rfl, rfl, rfl, rfl⟩
  | _ =>
      rw [hm] at hs
      cases hs

/-- **A download in any chunks** buffers their concatenation. -/
theorem answers_chunks (crypto : Crypto) (key : Bytes) (manifest : OtaManifest) (d : Disk) (chunks : List Bytes)
    (hs : m.state = .downloading)
    (hsize : ∀ chunk ∈ chunks, chunk.length % 2 ^ 64 ≤ (manifest.sizeBytes + 1024 * 1024).toNat) :
    ∃ buffer, ({ m with candidateBytes := buffer } : OtaManager).buffered = m.buffered ++ chunks.flatten ∧
      Answers crypto key (ingestCalls manifest chunks) ⟨some m, d⟩ (List.replicate chunks.length (.ok .unit))
        ⟨some { m with candidateBytes := buffer }, d⟩ := by
  induction chunks generalizing m with
  | nil => exact ⟨m.candidateBytes, by simp, answers_nil crypto key _⟩
  | cons chunk chunks ih =>
      have hfirst := quiet_ingestChunk (d := d) hs (hsize chunk List.mem_cons_self)
      obtain ⟨buffer, hbuffer, hrest⟩ := ih (m := { m with candidateBytes := some (m.buffered ++ chunk) }) hs
        (fun c hc => hsize c (List.mem_cons_of_mem _ hc))
      refine ⟨buffer, ?_, hrest.method (c := .ingestChunk chunk manifest) rfl hfirst⟩
      have hadded : ({ m with candidateBytes := some (m.buffered ++ chunk) } : OtaManager).buffered =
          m.buffered ++ chunk := rfl
      rw [List.flatten_cons, ← List.append_assoc, ← hadded]
      exact hbuffer

end Parts

/-! ## §2 An update from its first call to its commit. -/

/-- The calls of an update whose artifact comes in `chunks`. -/
def installCalls (manifest : OtaManifest) (chunks : List Bytes) : Schedule :=
  [(.startDownload manifest, [])] ++ ingestCalls manifest chunks ++
    [(.verify manifest, []), (.markRebootPending, []), (.simulateReboot, []), (.healthCheck true "", [])]

/-- Their answers. -/
def installReplies (chunks : List Bytes) : List (Except OtaError Reply) :=
  [.ok (.started true)] ++ List.replicate chunks.length (.ok .unit) ++ List.replicate 4 (.ok .unit)

/-- The artifact is active under its version, and what was active before can still be booted. -/
structure Installed (manifest : OtaManifest) (bytes : Bytes) (old : Slot) (slots : Slot → SlotDir)
    (m : OtaManager) (d : Disk) : Prop where
  state : m.state = .committed
  active : m.activeSlot = old.other
  watermark : m.highestCommittedVersion = some manifest.version
  journal : d.journal = some (.whole m.record)
  artifact : d.slots old.other = ⟨some bytes, some (.whole manifest.version)⟩
  previous : d.slots old = slots old

section Install

variable {crypto : Crypto} {key : Bytes} {m : OtaManager} {d : Disk}

theorem answers_install (crypto : Crypto) (key : Bytes) (d : Disk) {manifest : OtaManifest} {chunks : List Bytes}
    (hadmits : m.Admits manifest.version)
    (hsize : ∀ chunk ∈ chunks, chunk.length % 2 ^ 64 ≤ (manifest.sizeBytes + 1024 * 1024).toNat)
    (hhash : hexEncode (crypto.sha256 chunks.flatten) = toLowercase manifest.artifactSha256Hex.toList)
    (hsig : checkSignature crypto m.verifyingKey chunks.flatten manifest = .ok true) :
    ∃ m' d', Installed manifest chunks.flatten m.activeSlot d.slots m' d' ∧
      Answers crypto key (installCalls manifest chunks) ⟨some m, d⟩ (installReplies chunks) ⟨some m', d'⟩ := by
  set m₁ := m.begun manifest.version
  set d₁ := d.journaling m₁.record
  have hbegin : Answers crypto key [(.startDownload manifest, [])] ⟨some m, d⟩ [.ok (.started true)] ⟨some m₁, d₁⟩ :=
    (answers_nil crypto key _).method rfl (quiet_startDownload (startGate_of_admits hadmits))
  obtain ⟨buffer, hbuffer, hchunks⟩ := answers_chunks crypto key manifest d₁ chunks (m := m₁) rfl hsize
  set m₂ : OtaManager := { m₁ with candidateBytes := buffer }
  have hbytes : m₂.buffered = chunks.flatten := hbuffer
  set d₃ := d₁.staging m₂ manifest.version
  have hverify : Method.quiet device (verify crypto manifest) m₂ d₁ = ((.ok (), { m₂ with state := .staged }), d₃) := by
    refine quiet_verify rfl ?_ ?_
    · rw [hbytes]
      exact hhash
    · rw [hbytes]
      exact hsig
  set d₄ := d₃.journaling { m₂ with state := .rebootPending }.record
  set d₅ := d₄.journaling { m₂ with state := .healthChecking }.record
  have hmark : Method.quiet device markRebootPending { m₂ with state := .staged } d₃ =
      ((.ok (), { m₂ with state := .rebootPending }), d₄) := quiet_markRebootPending rfl
  have hboot : Method.quiet device simulateReboot { m₂ with state := .rebootPending } d₄ =
      ((.ok (), { m₂ with state := .healthChecking }), d₅) := quiet_simulateReboot rfl
  have hcheck : Method.quiet device (healthCheck true "") { m₂ with state := .healthChecking } d₅ =
      ((.ok (), m.updated manifest.version), d₅.journaling (m.updated manifest.version).record) :=
    quiet_healthCheck rfl
  have hend := ((((answers_nil crypto key _).method (c := .healthCheck true "") rfl hcheck).method
    (c := .simulateReboot) rfl hboot).method (c := .markRebootPending) rfl hmark).method
    (c := .verify manifest) rfl hverify
  refine ⟨m.updated manifest.version, d₅.journaling (m.updated manifest.version).record, ?_,
    (hbegin.append hchunks).append hend⟩
  -- `verify` is the only call that writes to a slot
  have hslots : ∀ t, d₃.slots t = if t = m.activeSlot.other then ⟨some m₂.buffered, some (.whole manifest.version)⟩
      else d.slots t := fun _ => rfl
  refine ⟨rfl, rfl, raiseWatermark_of_gt hadmits.2, rfl, ?_, ?_⟩
  · show d₃.slots m.activeSlot.other = _
    rw [hslots, if_pos rfl, hbytes]
  · show d₃.slots m.activeSlot = _
    rw [hslots, if_neg (Slot.other_ne m.activeSlot).symm]

/-- An update from its boot to its commit, on any disk whose journal can be read. -/
theorem answers_next_update (crypto : Crypto) (key : Bytes) {manifest : OtaManifest} {chunks : List Bytes}
    (hdecodes : d.journal ≠ some .garbled)
    (hnewer : ∀ v, d.committedPair.2 = some v → compareVersions manifest.version v = .gt)
    (hsize : ∀ chunk ∈ chunks, chunk.length % 2 ^ 64 ≤ (manifest.sizeBytes + 1024 * 1024).toNat)
    (hhash : hexEncode (crypto.sha256 chunks.flatten) = toLowercase manifest.artifactSha256Hex.toList)
    (hsig : checkSignature crypto key chunks.flatten manifest = .ok true) :
    ∃ state m d', state.interrupted = false ∧ Installed manifest chunks.flatten d.committedPair.1 d.slots m d' ∧
      Answers crypto key (resumeCalls ++ retreatCalls state ++ installCalls manifest chunks) ⟨none, d⟩
        ([.ok .unit, .ok (.state state)] ++ List.replicate (retreatCalls state).length (.ok .unit) ++
          installReplies chunks) ⟨some m, d'⟩ := by
  obtain ⟨d₁, hresume, _, hslots₁⟩ := answers_resume crypto key none hdecodes
  set p := (d.resumed key).recovered
  have hpair : (p.activeSlot, p.highestCommittedVersion) = d.committedPair := resumed_pair key d
  have hstate : p.state.interrupted = false := OtaState.recovered_not_interrupted _
  obtain ⟨m₂, d₂, hretreated, hretreat⟩ := answers_retreat crypto key (m := .ofRecord key p) d₁ hstate
  have hadmits : m₂.Admits manifest.version := by
    refine ⟨hretreated.free, ?_⟩
    intro v hv
    refine hnewer v ?_
    rw [← hpair]
    exact hretreated.watermark.symm.trans hv
  have hkey : m₂.verifyingKey = key := hretreated.key
  obtain ⟨m₃, d₃, hinstalled, hinstall⟩ := answers_install crypto key d₂ hadmits hsize hhash (hkey ▸ hsig)
  have hactive : m₂.activeSlot = d.committedPair.1 := by
    rw [← hpair]
    exact hretreated.active
  rw [hactive, hretreated.slots, hslots₁] at hinstalled
  exact ⟨p.state, m₃, d₃, hstate, hinstalled, (hresume.append hretreat).append hinstall⟩

end Install

/-! ## §3 After any history. -/

/-- **No history keeps a device from its next update.** Stop any run before or after any of its requests,
whatever has failed or torn so far. For every manifest above the watermark of the journal and every artifact that
it signs, in chunks of any number that each pass the size check: `open`, `recover`, the retreat for the state
that `recover` returns, and the calls of the update, with no further failure, all return `Ok`; they leave a
committed manager on the slot that was not active, with exactly these bytes and this version in it and this
version as the watermark, in memory and in the journal, and the other slot as it was. -/
theorem update_installs (crypto : Crypto) (key : Bytes) (slots : Slot → SlotDir) (sched : Schedule)
    (pre post : List OtaStep) (s : OtaStep)
    (hrun : ((ota crypto key).run sched (factory slots)).1 = pre ++ s :: post) (d : Disk)
    (hd : d = s.event.before.disk ∨ d = (s.event.after device none).disk) (manifest : OtaManifest)
    (chunks : List Bytes) (hnewer : ∀ v, d.committedPair.2 = some v → compareVersions manifest.version v = .gt)
    (hsize : ∀ chunk ∈ chunks, chunk.length % 2 ^ 64 ≤ (manifest.sizeBytes + 1024 * 1024).toNat)
    (hhash : hexEncode (crypto.sha256 chunks.flatten) = toLowercase manifest.artifactSha256Hex.toList)
    (hsig : checkSignature crypto key chunks.flatten manifest = .ok true) :
    ∃ state m d', state.interrupted = false ∧ Installed manifest chunks.flatten d.committedPair.1 d.slots m d' ∧
      Answers crypto key (resumeCalls ++ retreatCalls state ++ installCalls manifest chunks) ⟨none, d⟩
        ([.ok .unit, .ok (.state state)] ++ List.replicate (retreatCalls state).length (.ok .unit) ++
          installReplies chunks) ⟨some m, d'⟩ := by
  have hdecodes : d.journal ≠ some .garbled := by
    obtain ⟨hbefore, hafter⟩ := journal_decodes crypto key slots sched hrun
    rcases hd with rfl | rfl
    · exact hbefore
    · exact hafter
  exact answers_next_update crypto key hdecodes hnewer hsize hhash hsig

/-- A first update that stops in the middle of `verify`, and a second one in two chunks. -/
theorem update_installs_interrupted :
    ∃ pre s post, firstUpdate = pre ++ s :: post ∧
      ∃ state m d', state.interrupted = false ∧
        Installed (signedManifest tabulated releaseSign [1] "2.0.0") [1]
          (s.event.after device none).disk.committedPair.1 (s.event.after device none).disk.slots m d' ∧
        Answers tabulated releaseKey
          (resumeCalls ++ retreatCalls state ++
            installCalls (signedManifest tabulated releaseSign [1] "2.0.0") [[], [1]])
          ⟨none, (s.event.after device none).disk⟩
          ([.ok .unit, .ok (.state state)] ++ List.replicate (retreatCalls state).length (.ok .unit) ++
            installReplies [[], [1]]) ⟨some m, d'⟩ := by
  have hlen : 20 < firstUpdate.length := by rw [firstUpdate_length]; omega
  have hsplit := split_at hlen
  have hpair : firstUpdate[20]?.map (fun s => (s.event.after device none).disk.committedPair.2) = some none := by
    decide +kernel
  rw [List.getElem?_eq_getElem hlen] at hpair
  refine ⟨_, _, _, hsplit, ?_⟩
  refine update_installs tabulated releaseKey emptySlots _ _ _ _ hsplit _ (.inr rfl)
    (signedManifest tabulated releaseSign [1] "2.0.0") [[], [1]] ?_ ?_ (by decide +kernel) (by decide +kernel)
  · intro v hv
    cases (Option.some.inj hpair).symm.trans hv
  · decide +kernel

end Edgewarden.Ota
