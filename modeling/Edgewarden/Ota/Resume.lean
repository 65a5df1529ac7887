/-
# Edgewarden.Ota.Resume — `open` and `recover` after a crash.

Whatever a run leaves on disk, wherever it stops:

* the journal decodes, so `open` succeeds, and `recover` maps the journaled state to one of the seven it
  can resume from (`OtaState.recovered`);
* it does so again if the process dies in the middle of `open` or `recover`, any number of times: what
  an attempt leaves behind recovers to the same record (`attemptInvariant`);
* the device is not stuck: from each of the seven states a few calls lead to one in which
  `start_download` begins (`escape`).
-/
import Edgewarden.Ota.Commit
import Edgewarden.Ota.Update

namespace Edgewarden.Ota

open Edgewarden.FaultIo

/-! ## §1 Runs without faults. -/

/-- The answers of a run, in order. -/
def replies (steps : List OtaStep) : List (Except OtaError Reply) := steps.filterMap fun s => s.event.reply

/-- The run of `sched` from `w` answers `bs` and leaves `w'`. -/
structure Answers (crypto : Crypto) (key : Bytes) (sched : Schedule) (w : OtaWorld)
    (bs : List (Except OtaError Reply)) (w' : OtaWorld) : Prop where
  replies : replies ((ota crypto key).run sched w).1 = bs
  world : ((ota crypto key).run sched w).2 = w'

section Answers

variable {crypto : Crypto} {key : Bytes}

theorem answers_nil (crypto : Crypto) (key : Bytes) (w : OtaWorld) : Answers crypto key [] w [] w := ⟨rfl, rfl⟩

theorem replies_call (c : Call) (w : OtaWorld)
    (es : List (Event (Option OtaManager) Req Tear Disk (Except OtaError Reply))) :
    replies (es.map (Step.mk c w)) = es.filterMap Event.reply := by
  simp only [replies, List.filterMap_map]
  rfl

/-- One call that meets no fault, at the head of a schedule. -/
theorem Answers.call {c : Call} {m m' : Option OtaManager} {d d' : Disk} {b : Except OtaError Reply}
    {rest : Schedule} {bs : List (Except OtaError Reply)} {w' : OtaWorld}
    (hrest : Answers crypto key rest ⟨m', d'⟩ bs w')
    (h : (callProg crypto key c ⟨m, d⟩).quiet device d = ((b, m'), d')) :
    Answers crypto key ((c, []) :: rest) ⟨m, d⟩ (b :: bs) w' := by
  obtain ⟨es, hrun, hreply⟩ := run_quiet rest h
  have hcall := replies_call c ⟨m, d⟩ es
  rw [hreply] at hcall
  refine ⟨?_, ?_⟩
  · rw [hrun, ← hrest.replies]
    unfold Ota.replies at hcall ⊢
    rw [List.filterMap_append, hcall]
    rfl
  · rw [hrun]
    exact hrest.world

/-- ... of a method of the live manager that returns `Ok`. -/
theorem Answers.method {c : Call} {α : Type} {x : OtaM α} {reply : α → Reply} {m m' : OtaManager}
    {d d' : Disk} {a : α} {rest : Schedule} {bs : List (Except OtaError Reply)} {w' : OtaWorld}
    (hrest : Answers crypto key rest ⟨some m', d'⟩ bs w')
    (hprog : callProg crypto key c ⟨some m, d⟩ = onManager x reply ⟨some m, d⟩)
    (h : Method.quiet device x m d = ((.ok a, m'), d')) :
    Answers crypto key ((c, []) :: rest) ⟨some m, d⟩ (.ok (reply a) :: bs) w' := by
  refine hrest.call ?_
  rw [hprog]
  exact quiet_onManager h

end Answers

/-! ## §2 What is resumed. -/

/-- The state that `recover` makes of a journaled one. -/
def OtaState.recovered : OtaState → OtaState
  | .downloading | .verifying => .idle
  | .rebootPending | .bootingCandidate | .healthChecking => .healthChecking
  | s => s

/-- The states that `recover` never returns. -/
def OtaState.interrupted : OtaState → Bool
  | .downloading | .verifying | .rebootPending | .bootingCandidate => true
  | _ => false

theorem OtaState.recovered_not_interrupted (s : OtaState) : s.recovered.interrupted = false := by
  cases s <;> rfl

/-- The record that `recover` makes of a journaled one. -/
@[simps] def PersistedOta.recovered (p : PersistedOta) : PersistedOta := { p with state := p.state.recovered }

/-- The record `open` starts from: the journaled one, or the first one it writes itself. -/
def Disk.resumed (key : Bytes) (d : Disk) : PersistedOta :=
  match d.journal with
  | some (.whole p) => p
  | _ => (OtaManager.initial key).record

theorem resumed_of_whole {key : Bytes} {d : Disk} {p : PersistedOta} (h : d.journal = some (.whole p)) :
    d.resumed key = p := by
  simp only [Disk.resumed, h]

theorem resumed_of_none {key : Bytes} {d : Disk} (h : d.journal = none) :
    d.resumed key = (OtaManager.initial key).record := by
  simp only [Disk.resumed, h]

theorem resumed_congr {key : Bytes} {d d' : Disk} (h : d'.journal = d.journal) :
    d'.resumed key = d.resumed key := by
  simp only [Disk.resumed, h]

theorem resumed_pair (key : Bytes) (d : Disk) :
    ((d.resumed key).activeSlot, (d.resumed key).highestCommittedVersion) = d.committedPair := by
  unfold Disk.resumed Disk.committedPair
  rcases d.journal with _ | _ | _ <;> rfl

section Resume

variable {crypto : Crypto} {key : Bytes}

/-- `open` on a disk whose journal decodes. -/
theorem quiet_open (crypto : Crypto) (key : Bytes) (m : Option OtaManager) {d : Disk}
    (hd : d.journal ≠ some .garbled) :
    ∃ d', (callProg crypto key .open ⟨m, d⟩).quiet device d =
        ((.ok .unit, some (.ofRecord key (d.resumed key))), d') ∧
      d'.journal = some (.whole (d.resumed key)) ∧ d'.slots = d.slots := by
  obtain ⟨journal, tmp, slots⟩ := d
  rcases journal with _ | _ | _
  · exact ⟨_, rfl, rfl, rfl⟩
  · exact ⟨_, rfl, rfl, rfl⟩
  · exact absurd rfl hd

/-- `recover` on a manager that `open` has just built. -/
theorem quiet_recover (key : Bytes) {p : PersistedOta} {d : Disk} (hj : d.journal = some (.whole p)) :
    ∃ d', Method.quiet device recover (.ofRecord key p) d =
        ((.ok p.state.recovered, .ofRecord key p.recovered), d') ∧
      d'.journal = some (.whole p.recovered) ∧ d'.slots = d.slots := by
  obtain ⟨s, _, _, _, _, _⟩ := p
  cases s with
  | downloading => exact ⟨_, rfl, rfl, rfl⟩
  | verifying => exact ⟨_, rfl, rfl, rfl⟩
  | rebootPending => exact ⟨_, rfl, rfl, rfl⟩
  | bootingCandidate => exact ⟨_, rfl, rfl, rfl⟩
  | healthChecking => exact ⟨_, rfl, rfl, rfl⟩
  | _ => exact ⟨d, rfl, hj, rfl⟩

/-- `open` and `recover`, on whatever a crash left. -/
def resumeCalls : Schedule := [(.open, []), (.recover, [])]

theorem answers_resume (crypto : Crypto) (key : Bytes) (m : Option OtaManager) {d : Disk}
    (hd : d.journal ≠ some .garbled) :
    ∃ d', Answers crypto key resumeCalls ⟨m, d⟩
        [.ok .unit, .ok (.state (d.resumed key).recovered.state)]
        ⟨some (.ofRecord key (d.resumed key).recovered), d'⟩ ∧
      d'.journal = some (.whole (d.resumed key).recovered) ∧ d'.slots = d.slots := by
  obtain ⟨d₁, hopen, hj₁, hs₁⟩ := quiet_open crypto key m hd
  obtain ⟨d₂, hrec, hj₂, hs₂⟩ := quiet_recover key hj₁
  have hlast : Answers crypto key [(.recover, [])] ⟨some (.ofRecord key (d.resumed key)), d₁⟩
      [.ok (.state (d.resumed key).recovered.state)]
      ⟨some (.ofRecord key (d.resumed key).recovered), d₂⟩ :=
    (answers_nil crypto key _).method rfl hrec
  exact ⟨d₂, hlast.call hopen, hj₂, hs₂.trans hs₁⟩

end Resume

/-! ## §3 Attempts that die. -/

/-- A call of a process that tries to resume. -/
def isResuming : Call → Bool
  | .open | .recover | .kill => true
  | _ => false

section Attempts

variable {crypto : Crypto} {key : Bytes}

/-- The disk still recovers to `p`, with the slots as they were. -/
structure StillResumes (key : Bytes) (p : PersistedOta) (slots : Slot → SlotDir) (d : Disk) : Prop where
  decodes : d.journal ≠ some .garbled
  recovers : (d.resumed key).recovered = p
  slots : d.slots = slots

theorem StillResumes.of_same {p : PersistedOta} {slots : Slot → SlotDir} {d d' : Disk}
    (h : StillResumes key p slots d) (hj : d'.journal = d.journal) (hs : d'.slots = d.slots) :
    StillResumes key p slots d' := by
  refine ⟨?_, ?_, hs.trans h.slots⟩
  · rw [hj]
    exact h.decodes
  · rw [resumed_congr hj]
    exact h.recovers

theorem StillResumes.of_whole {p p' : PersistedOta} {slots : Slot → SlotDir} {d : Disk}
    (hj : d.journal = some (.whole p')) (hp : p'.recovered = p) (hs : d.slots = slots) :
    StillResumes key p slots d := by
  refine ⟨?_, ?_, hs⟩
  · rw [hj]
    exact nofun
  · rw [resumed_of_whole hj]
    exact hp

/-- What `recover` assigns recovers to the same record. -/
theorem Assign.recovered {w₀ : OtaWorld} {c : Call} {a b : OtaManager} {d : Disk}
    (h : Assign crypto w₀ c a d b) (hc : isResuming c = true) :
    b.record.recovered = a.record.recovered := by
  cases h with
  | restart _ hs =>
      unfold PersistedOta.recovered
      rcases hs with hs | hs <;> simp [OtaManager.record, hs, OtaState.recovered]
  | recheck _ hs =>
      unfold PersistedOta.recovered
      rcases hs with hs | hs | hs <;> simp [OtaManager.record, hs, OtaState.recovered]
  | _ => cases hc

/-- One request of an attempt. -/
theorem StillResumes.after_request {p : PersistedOta} {slots : Slot → SlotDir} {c : Call} {w₀ : OtaWorld}
    {m m' : Option OtaManager} {d : Disk} {q : Req} {f : Fault Tear} (h : StillResumes key p slots d)
    (hw : Synced w₀) (hc : isResuming c = true) (hq : Micro crypto key c w₀ m d m' q) :
    StillResumes key p slots (device.after q d f) := by
  have hquiet : (q ≠ .renameJournal ∨ f ≠ .ok) → q.slot = none →
      StillResumes key p slots (device.after q d f) :=
    fun hne hslot => h.of_same (after_journal hne) (after_slots hslot)
  -- an attempt writes to no slot
  have hslot : ∀ (a : OtaManager) (manifest : OtaManifest), ¬ Staging crypto c w₀ a d manifest := by
    intro a manifest hst
    rw [hst.call] at hc
    cases hc
  cases hq with
  | createDir _ => exact hquiet (.inl nofun) rfl
  | readJournal _ => exact hquiet (.inl nofun) rfl
  | writeInitial _ _ => exact hquiet (.inl nofun) rfl
  | writeTmp _ => exact hquiet (.inl nofun) rfl
  | syncTmp => exact hquiet (.inl nofun) rfl
  | syncDir => exact hquiet (.inl nofun) rfl
  | renameInitial _ hj ht =>
      by_cases hf : f = .ok
      · subst hf
        refine .of_whole (after_rename ht) ?_ ((after_slots rfl).trans h.slots)
        have hrec := h.recovers
        rwa [resumed_of_none hj] at hrec
      · exact hquiet (.inr hf) rfl
  | rename hassign hj _ ht =>
      by_cases hf : f = .ok
      · subst hf
        refine .of_whole (after_rename ht) ?_ ((after_slots rfl).trans h.slots)
        have hrec := h.recovers
        rw [resumed_of_whole (hj.trans (hassign.source_journaled hw))] at hrec
        exact (hassign.recovered hc).trans hrec
      · exact hquiet (.inr hf) rfl
  | createSlotDir hst => exact absurd hst (hslot _ _)
  | writeArtifact hst => exact absurd hst (hslot _ _)
  | writeVersion hst _ => exact absurd hst (hslot _ _)

/-- Attempts to resume, whether they die or not, leave a disk that recovers to the same record. -/
def attemptInvariant (crypto : Crypto) (key : Bytes) (p : PersistedOta) (slots : Slot → SlotDir) :
    Invariant (ota crypto key) slotErrorsOnly (fun s => isResuming s.call = true) (Micro crypto key)
      (Return key slotErrorsOnly) Unit where
  upd g _ := g
  At _ w := Synced w ∧ StillResumes key p slots w.disk
  In _ _ w₀ w := Synced w₀ ∧ StillResumes key p slots w.disk
  Good _ _ := True
  enter h := h
  live inv h hc _ _ := ⟨trivial, inv.1, inv.2.after_request inv.1 hc h⟩
  die {_ _ _ _ _ _ _ t} inv h hc :=
    ⟨trivial, synced_none _, inv.2.after_request (f := .die t) inv.1 hc h⟩
  ret inv h _ := ⟨trivial, h.synced inv.1, inv.2⟩

theorem attempts_resume (crypto : Crypto) (key : Bytes) {d : Disk} (hd : d.journal ≠ some .garbled) {attempts : Schedule}
    (hcalls : ∀ c ∈ attempts, isResuming c.1 = true)
    (hdeaths : ∀ c ∈ attempts, ∀ f ∈ c.2, ∀ t, f ≠ .fail t) :
    StillResumes key (d.resumed key).recovered d.slots
      ((ota crypto key).run attempts ⟨none, d⟩).2.disk := by
  have hstart : Synced ⟨none, d⟩ ∧ StillResumes key (d.resumed key).recovered d.slots d :=
    ⟨synced_none d, hd, rfl, rfl⟩
  refine ((attemptInvariant crypto key _ _).along_run (ota_follows crypto key _) attempts (g := ())
    hstart ?_).2.2
  intro s hs
  obtain ⟨fs, hfs⟩ := (ota crypto key).call_mem_of_mem_run hs
  exact ⟨(ota crypto key).run_deaths_failsOnly hdeaths _ s hs, hcalls _ hfs⟩

end Attempts

/-! ## §4 The way back to `start_download`. -/

/-- A call of the way back: `rollback`, `mark_reboot_pending`, `simulate_reboot`, `health_check(false)`. -/
def isRetreat : Call → Bool
  | .rollback | .markRebootPending | .simulateReboot | .healthCheck false _ => true
  | _ => false

/-- `start_download` begins any update above the watermark, into the slot that is not active. -/
def Begins (crypto : Crypto) (key : Bytes) (m : OtaManager) (d : Disk) : Prop :=
  ∀ manifest : OtaManifest,
    (∀ h, m.highestCommittedVersion = some h → compareVersions manifest.version h = .gt) →
    ∃ m' d', Answers crypto key [(.startDownload manifest, [])] ⟨some m, d⟩ [.ok (.started true)]
        ⟨some m', d'⟩ ∧
      m'.state = .downloading ∧ m'.candidateVersion = some manifest.version ∧
      m'.candidateSlot = some m.activeSlot.other

section Escape

variable {crypto : Crypto} {key : Bytes}

theorem startGate_of_admits {m : OtaManager} {manifest : OtaManifest} (h : m.Admits manifest.version) :
    m.startGate manifest = .ok true := by
  obtain ⟨hfree, hgt⟩ := h
  by_cases hc : m.candidateVersion = none
  · exact startGate_of_no_candidate hc hgt
  · -- a leftover candidate of a resting state is no obstacle
    have hrest : m.state.resting = true := hfree.resolve_left hc
    obtain ⟨v, hv⟩ := Option.ne_none_iff_exists'.mp hc
    unfold OtaManager.startGate OtaManager.downgradeGate
    rw [hv]
    cases hh : m.highestCommittedVersion with
    | none => simp [hrest]
    | some w => simp [hrest, hgt w hh]

theorem begins_of_free {m : OtaManager} (d : Disk)
    (h : m.candidateVersion = none ∨ m.state.resting = true) : Begins crypto key m d := by
  intro manifest hgt
  have hgate : m.startGate manifest = .ok true := startGate_of_admits ⟨h, hgt⟩
  exact ⟨_, _, (answers_nil crypto key _).method rfl (quiet_startDownload hgate), rfl, rfl, rfl⟩

theorem quiet_unhealthy {m : OtaManager} {d : Disk} {detail : String} (hs : m.state = .healthChecking) :
    Method.quiet device (healthCheck false detail) m d =
      ((.ok (), { m with lastError := some detail }.rolledBack),
        d.journaling { m with lastError := some detail }.rolledBack.record) := by
  unfold healthCheck
  rw [Method.quiet_get]
  simp only [hs, ne_eq, not_true_eq_false, if_false]
  rfl

theorem quiet_rollback {m : OtaManager} {d : Disk} (hs : m.state = .rollbackPending) :
    Method.quiet device rollback m d = ((.ok (), m.rolledBack), d.journaling m.rolledBack.record) := by
  unfold rollback
  rw [Method.quiet_get]
  simp only [hs, true_or, not_true_eq_false, if_false]
  rfl

/-- A few calls that all return `Ok` lead to a manager with the same active slot and watermark for which
`start_download` begins. -/
structure Escape (crypto : Crypto) (key : Bytes) (m : OtaManager) (d : Disk) (calls : Schedule)
    (m' : OtaManager) (d' : Disk) : Prop where
  retreat : ∀ c ∈ calls, isRetreat c.1 = true ∧ c.2 = []
  answers : Answers crypto key calls ⟨some m, d⟩ (List.replicate calls.length (.ok .unit)) ⟨some m', d'⟩
  active : m'.activeSlot = m.activeSlot
  watermark : m'.highestCommittedVersion = m.highestCommittedVersion
  begins : Begins crypto key m' d'

theorem escape_here {m : OtaManager} {d : Disk} (h : m.state.resting = true) :
    Escape crypto key m d [] m d where
  retreat := nofun
  answers := answers_nil crypto key _
  active := rfl
  watermark := rfl
  begins := begins_of_free d (.inr h)

theorem escape_unhealthy (crypto : Crypto) (key : Bytes) (m : OtaManager) (d : Disk) (hs : m.state = .healthChecking) :
    ∃ m' d', Escape crypto key m d [(.healthCheck false "", [])] m' d' := by
  have hanswers := (answers_nil crypto key _).method (c := .healthCheck false "") rfl (quiet_unhealthy (d := d) hs)
  refine ⟨_, _, ?_, hanswers, rfl, rfl, ?_⟩
  · simp [isRetreat]
  · exact begins_of_free _ (.inl rfl)

theorem escape_rollback (crypto : Crypto) (key : Bytes) (m : OtaManager) (d : Disk) (hs : m.state = .rollbackPending) :
    ∃ m' d', Escape crypto key m d [(.rollback, [])] m' d' := by
  have hanswers := (answers_nil crypto key _).method (c := .rollback) rfl (quiet_rollback (d := d) hs)
  refine ⟨_, _, ?_, hanswers, rfl, rfl, ?_⟩
  · simp [isRetreat]
  · exact begins_of_free _ (.inl rfl)

/-- A staged candidate is booted and found unhealthy. -/
theorem escape_staged (crypto : Crypto) (key : Bytes) (m : OtaManager) (d : Disk) (hs : m.state = .staged) :
    ∃ m' d', Escape crypto key m d
      [(.markRebootPending, []), (.simulateReboot, []), (.healthCheck false "", [])] m' d' := by
  set m₁ : OtaManager := { m with state := .rebootPending }
  set m₂ : OtaManager := { m with state := .healthChecking }
  have hmark : Method.quiet device markRebootPending m d = ((.ok (), m₁), d.journaling m₁.record) :=
    quiet_markRebootPending hs
  have hboot : Method.quiet device simulateReboot m₁ (d.journaling m₁.record) =
      ((.ok (), m₂), (d.journaling m₁.record).journaling m₂.record) := quiet_simulateReboot rfl
  obtain ⟨m', d', h⟩ :=
    escape_unhealthy crypto key m₂ ((d.journaling m₁.record).journaling m₂.record) rfl
  have hrun := (h.answers.method (c := .simulateReboot) rfl hboot).method (c := .markRebootPending) rfl hmark
  refine ⟨m', d', ?_, hrun, h.active, h.watermark, h.begins⟩
  simp [isRetreat]

/-- **The device is never stuck**: from every state `recover` returns there is a way back. -/
theorem escape {m : OtaManager} {d : Disk} (hs : m.state.interrupted = false) :
    ∃ calls m' d', Escape crypto key m d calls m' d' := by
  cases hm : m.state with
  | idle => exact ⟨[], m, d, escape_here (by rw [hm]; rfl)⟩
  | committed => exact ⟨[], m, d, escape_here (by rw [hm]; rfl)⟩
  | rolledBack => exact ⟨[], m, d, escape_here (by rw [hm]; rfl)⟩
  | failed => exact ⟨[], m, d, escape_here (by rw [hm]; rfl)⟩
  | staged => exact ⟨_, escape_staged crypto key m d hm⟩
  | healthChecking => exact ⟨_, escape_unhealthy crypto key m d hm⟩
  | rollbackPending => exact ⟨_, escape_rollback crypto key m d hm⟩
  | _ =>
      rw [hm] at hs
      cases hs

end Escape

/-! ## §5 Crash resume. -/

/-- The journal decodes at every moment of every run, whatever fails. -/
theorem journal_decodes (crypto : Crypto) (key : Bytes) (slots : Slot → SlotDir) (sched : Schedule)
    {pre post : List OtaStep} {s : OtaStep}
    (hrun : ((ota crypto key).run sched (factory slots)).1 = pre ++ s :: post) :
    s.event.before.disk.journal ≠ some .garbled ∧
      (s.event.after device none).disk.journal ≠ some .garbled := by
  have halong := slotInvariant_along crypto key slots sched
  rw [hrun] at halong
  obtain ⟨_, hj, hnext, _⟩ := halong.at_split
  exact ⟨hj.decodes, hnext.journal.decodes⟩

/-- What `open` and `recover` make of the disk `d` of a crashed process, given the disk `d₁` that earlier
attempts left. -/
structure Resumes (crypto : Crypto) (key : Bytes) (d d₁ : Disk) (m : OtaManager) (d' : Disk) : Prop where
  answers : Answers crypto key resumeCalls ⟨none, d₁⟩ [.ok .unit, .ok (.state m.state)] ⟨some m, d'⟩
  same : m = .ofRecord key (d.resumed key).recovered
  state : m.state.interrupted = false
  pair : (m.activeSlot, m.highestCommittedVersion) = d.committedPair
  journal : d'.journal = some (.whole m.record)
  slots : d'.slots = d.slots
  escape : ∃ calls m₁ d₂, Escape crypto key m d' calls m₁ d₂

/-- **Crash resume.** Stop any run before or after any of its requests, whatever has failed or torn so
far, and let any number of attempts to `open` and `recover` die at any of their requests. Then `open` and
`recover` succeed, with the same manager however many attempts there were; its state is none of
`Downloading`, `Verifying`, `RebootPending`, `BootingCandidate`; active slot, watermark and both slots are
those of the crash; and some calls of `rollback`, `mark_reboot_pending`, `simulate_reboot` and
`health_check(false)` lead to a manager whose `start_download` begins any greater version in the other
slot. -/
theorem crash_resumes (crypto : Crypto) (key : Bytes) (slots : Slot → SlotDir) (sched : Schedule)
    (pre post : List OtaStep) (s : OtaStep)
    (hrun : ((ota crypto key).run sched (factory slots)).1 = pre ++ s :: post) (d : Disk)
    (hd : d = s.event.before.disk ∨ d = (s.event.after device none).disk) (attempts : Schedule)
    (hcalls : ∀ c ∈ attempts, isResuming c.1 = true)
    (hdeaths : ∀ c ∈ attempts, ∀ f ∈ c.2, ∀ t, f ≠ .fail t) :
    ∃ m d', Resumes crypto key d ((ota crypto key).run attempts ⟨none, d⟩).2.disk m d' := by
  have hdecodes : d.journal ≠ some .garbled := by
    obtain ⟨hbefore, hafter⟩ := journal_decodes crypto key slots sched hrun
    rcases hd with rfl | rfl
    · exact hbefore
    · exact hafter
  have hleft := attempts_resume crypto key hdecodes hcalls hdeaths
  obtain ⟨d', hanswers, hj, hs⟩ := answers_resume crypto key none hleft.decodes
  rw [hleft.recovers] at hanswers hj
  have hstate : (d.resumed key).recovered.state.interrupted = false :=
    OtaState.recovered_not_interrupted _
  refine ⟨.ofRecord key (d.resumed key).recovered, d', hanswers, rfl, hstate, ?_, hj, ?_, escape hstate⟩
  · exact resumed_pair key d
  · exact hs.trans hleft.slots

/-- A first update that stops in the middle of `verify`, and a `recover` that dies once. -/
theorem crash_resumes_firstUpdate :
    ∃ pre s post, firstUpdate = pre ++ s :: post ∧
      ∃ m d', Resumes tabulated releaseKey (s.event.after device none).disk
        ((ota tabulated releaseKey).run [(.open, []), (.recover, [.ok, .die .untouched])]
          ⟨none, (s.event.after device none).disk⟩).2.disk m d' := by
  have hlen : 20 < firstUpdate.length := by rw [firstUpdate_length]; omega
  have hsplit := split_at hlen
  refine ⟨_, _, _, hsplit, ?_⟩
  refine crash_resumes tabulated releaseKey emptySlots _ _ _ _ hsplit _ (.inr rfl) _ ?_ ?_
  · simp [isResuming]
  · simp

end Edgewarden.Ota
