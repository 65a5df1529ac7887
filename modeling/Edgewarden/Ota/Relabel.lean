/-
# Edgewarden.Ota.Relabel — what the version label of a signed artifact is bound to.

`sign_artifact` signs the artifact BYTES. The version that `start_download` checks and that a commit
records comes from the manifest, which nobody signs. An adversary who holds release signatures can
therefore present an old artifact under a new label:

* `relabelled_artifact_rolls_back`: the release artifact of version `1.0.0` is committed after the
  one of version `2.0.0`, under the label `9.0.0`.
* `committed_artifacts_increase`: what protects a device is the label discipline of whoever writes
  manifests. While the labels put on release artifacts never order two artifacts differently from
  their true versions, each committed artifact is strictly newer than the one before it, in every
  run with crashes anywhere.
-/
import Edgewarden.Ota.Lifetime

namespace Edgewarden.Ota

open Edgewarden.FaultIo Edgewarden.Text

/-! ## §1 The adversary and its labels. -/

/-- A release signature verifies only the artifact it was made for. -/
def Binds (crypto : Crypto) (key : Bytes) (sign : Bytes → Bytes) (released : Set Bytes) : Prop :=
  ∀ vk, crypto.keyFromBytes key = .ok vk → ∀ b ∈ released, ∀ bytes,
    crypto.verify vk bytes (sign b) = true → bytes = b

/-- Every signature presented to `verify` is one the release side produced. -/
def UsesReleaseSignatures (sign : Bytes → Bytes) (released : Set Bytes) (c : Call) : Prop :=
  ∀ manifest, c = .verify manifest → ∀ sig,
    hexDecode (trim manifest.signatureHex.toList) = some sig → ∃ b ∈ released, sig = sign b

/-- Labels that never order two artifacts differently from their true versions. -/
def OrderPreserving (trueVersion : Bytes → String) (L : Set (String × Bytes)) : Prop :=
  ∀ l₁ b₁ l₂ b₂, (l₁, b₁) ∈ L → (l₂, b₂) ∈ L → compareVersions l₂ l₁ = .gt →
    compareVersions (trueVersion b₂) (trueVersion b₁) = .gt

/-- When `verify` is called on a release artifact, the label `start_download` recorded for it is one
of `L`. -/
def Labelled (released : Set Bytes) (L : Set (String × Bytes)) (s : OtaStep) : Prop :=
  ∀ manifest a v, s.call = .verify manifest → s.entry.mem = some a → a.buffered ∈ released →
    a.candidateVersion = some v → (v, a.buffered) ∈ L

/-- The artifact in the slot a commit write makes active. -/
def committedArtifact (s : OtaStep) : Option Bytes :=
  if isCommitWrite s then
    let d := (s.event.after device none).disk
    (d.slots d.committedPair.1).artifact
  else none

def committedArtifacts (steps : List OtaStep) : List Bytes := steps.filterMap committedArtifact

/-! ## §2 The invariant. -/

section Labels

variable {crypto : Crypto} {key : Bytes} {sign : Bytes → Bytes} {released : Set Bytes}
  {L : Set (String × Bytes)}

/-- The bytes `verify` accepts are a release artifact. -/
theorem accepted_released {bytes : Bytes} {manifest : OtaManifest}
    (hbind : Binds crypto key sign released)
    (huse : UsesReleaseSignatures sign released (.verify manifest))
    (h : checkSignature crypto key bytes manifest = .ok true) : bytes ∈ released := by
  unfold checkSignature at h
  cases hd : hexDecode (trim manifest.signatureHex.toList) with
  | none => simp [hd] at h
  | some sig =>
      obtain ⟨b, hb, rfl⟩ := huse manifest rfl sig hd
      simp only [hd] at h
      by_cases hl : (sign b).length = 64
      · cases hk : crypto.keyFromBytes key with
        | error e => simp [hl, hk] at h
        | ok vk =>
            have hv : crypto.verify vk bytes (sign b) = true := by simpa [hl, hk] using h
            rw [hbind vk hk b hb bytes hv]
            exact hb
      · simp [hl] at h

/-- What a record says about the last committed artifact `g` and about its candidate. -/
structure LabelOk (L : Set (String × Bytes)) (g : Option Bytes) (slots : Slot → SlotDir)
    (p : PersistedOta) : Prop where
  marked : ∀ h, p.highestCommittedVersion = some h → ∃ b, g = some b ∧ (h, b) ∈ L
  unmarked : p.highestCommittedVersion = none → g = none
  candidate : p.state.resting = false → p.candidateSlot = some p.activeSlot.other
  version : p.state.resting = false → ∃ v, p.candidateVersion = some v ∧
    ∀ h, p.highestCommittedVersion = some h → compareVersions v h = .gt
  staged : p.state.bootable = true → ∃ v b, p.candidateVersion = some v ∧
    (slots p.activeSlot.other).artifact = some b ∧ (v, b) ∈ L

/-- The journal's half of the invariant. -/
structure LabelJournal (L : Set (String × Bytes)) (g : Option Bytes) (d : Disk) : Prop where
  record : ∀ p, d.journal = some (.whole p) → LabelOk L g d.slots p
  fresh : d.journal = none → g = none

def Keyed (key : Bytes) (m : Option OtaManager) : Prop := ∀ a, m = some a → a.verifyingKey = key

theorem labelOk_initial {slots : Slot → SlotDir} :
    LabelOk L none slots (OtaManager.initial key).record where
  marked h hh := by cases hh
  unmarked _ := rfl
  candidate h := by cases h
  version h := by cases h
  staged h := by cases h

/-- Staged bytes are a release artifact, under the label recorded for it. -/
theorem Staging.labelled {c : Call} {w₀ : OtaWorld} {a : OtaManager} {d : Disk} {v : String}
    {manifest : OtaManifest} {e : Event (Option OtaManager) Req Tear Disk (Except OtaError Reply)}
    (h : Staging crypto c w₀ a d manifest) (hbind : Binds crypto key sign released)
    (huse : UsesReleaseSignatures sign released c) (hlab : Labelled released L ⟨c, w₀, e⟩)
    (hkey : Keyed key w₀.mem) (hv : a.candidateVersion = some v) : (v, a.buffered) ∈ L := by
  obtain ⟨a₀, hmem, _, rfl⟩ := h.entry
  have hacc := h.accepted
  rw [show ({ a₀ with state := .verifying } : OtaManager).verifyingKey = key from
    hkey a₀ hmem] at hacc
  obtain rfl := h.call
  have hrel := accepted_released hbind huse hacc
  exact hlab manifest a₀ v rfl hmem hrel hv

/-- Every assignment but the commit keeps the record's labels in order. -/
theorem Assign.labelOk {g : Option Bytes} {w₀ : OtaWorld} {c : Call} {a b : OtaManager} {d : Disk}
    {e : Event (Option OtaManager) Req Tear Disk (Except OtaError Reply)}
    (h : Assign crypto w₀ c a d b) (hbind : Binds crypto key sign released)
    (huse : UsesReleaseSignatures sign released c) (hlab : Labelled released L ⟨c, w₀, e⟩)
    (hkey : Keyed key w₀.mem) (ha : LabelOk L g d.slots a.record)
    (hhigh : b.highestCommittedVersion = a.highestCommittedVersion) :
    LabelOk L g d.slots b.record where
  marked v hv := ha.marked v (hhigh.symm.trans hv)
  unmarked hn := ha.unmarked (hhigh.symm.trans hn)
  candidate := h.candidate ha.candidate
  version := h.version_gt ha.version
  staged hb := by
    rcases h.bootable_cases hb with ⟨manifest, hst, hslot, rfl⟩ | ⟨hboot, hact, hv⟩
    · obtain ⟨v, hv, _⟩ := ha.version (by rw [OtaManager.record_state, hst.state_eq]; rfl)
      rw [hst.slot_eq ha.candidate] at hslot
      refine ⟨v, a.buffered, hv, ?_, hst.labelled hbind huse hlab hkey hv⟩
      show (d.slots a.activeSlot.other).artifact = _
      rw [hslot]
    · rw [OtaManager.record_candidateVersion, hv, OtaManager.record_activeSlot, hact]
      exact ha.staged hboot

theorem LabelOk.slots_changed {g : Option Bytes} {slots slots' : Slot → SlotDir} {p : PersistedOta}
    (h : LabelOk L g slots p) (hb : p.state.bootable = false) : LabelOk L g slots' p :=
  { h with
    staged := fun hboot => by
      rw [hb] at hboot
      cases hboot }

/-- The ghost: the last committed artifact. -/
def lastArtifact (g : Option Bytes) (s : OtaStep) : Option Bytes := (committedArtifact s).or g

theorem committedArtifact_other {s : OtaStep} (h : isCommitWrite s = false) :
    committedArtifact s = none := by
  simp [committedArtifact, h]

/-- The artifact of a commit write is newer than the last one. -/
def Newer (trueVersion : Bytes → String) (g : Option Bytes) (s : OtaStep) : Prop :=
  isCommitWrite s = true → ∃ b, committedArtifact s = some b ∧
    ∀ b₀, g = some b₀ → compareVersions (trueVersion b) (trueVersion b₀) = .gt

structure LabelInv (key : Bytes) (L : Set (String × Bytes)) (g : Option Bytes) (w : OtaWorld) :
    Prop where
  synced : Synced w
  keyed : Keyed key w.mem
  journal : LabelJournal L g w.disk

structure LabelIn (key : Bytes) (L : Set (String × Bytes)) (g : Option Bytes) (w₀ w : OtaWorld) :
    Prop where
  synced : Synced w₀
  entry : Keyed key w₀.mem
  keyed : Keyed key w.mem
  journal : LabelJournal L g w.disk

theorem Keyed.request {c : Call} {w₀ : OtaWorld} {m m' : Option OtaManager} {d : Disk} {q : Req}
    (hk : Keyed key m) (h : Micro crypto key c w₀ m d m' q) : Keyed key m' := by
  cases h with
  | createDir _ => exact fun a ha => by cases ha
  | readJournal _ => exact hk
  | writeInitial _ _ =>
      rintro _ ⟨⟩
      rfl
  | writeTmp hassign =>
      rintro _ ⟨⟩
      exact hassign.verifyingKey.trans (hk _ rfl)
  | _ => exact hk

/-- A slot write happens over a journaled `Verifying` record, which is not bootable. -/
theorem Micro.slot_write {c : Call} {w₀ : OtaWorld} {m m' : Option OtaManager} {d : Disk} {q : Req}
    {t : Slot} (h : Micro crypto key c w₀ m d m' q) (hq : q.slot = some t) :
    ∃ a, d.journal = some (.whole (OtaManager.record a)) ∧ a.state = .verifying := by
  cases h with
  | createSlotDir hst => exact ⟨_, hst.journaled, hst.state_eq⟩
  | writeArtifact hst => exact ⟨_, hst.journaled, hst.state_eq⟩
  | writeVersion hst _ => exact ⟨_, hst.journaled, hst.state_eq⟩
  | _ => cases hq

/-- A request that completes no `rename` keeps the journal's labels. -/
theorem LabelJournal.quiet {g : Option Bytes} {c : Call} {w₀ : OtaWorld} {m m' : Option OtaManager}
    {d : Disk} {q : Req} {f : Fault Tear} (inv : LabelJournal L g d)
    (h : Micro crypto key c w₀ m d m' q) (hq : q ≠ .renameJournal ∨ f ≠ .ok) :
    LabelJournal L g (device.after q d f) where
  fresh hj := inv.fresh ((after_journal hq).symm.trans hj)
  record p hp := by
    have hp' : d.journal = some (.whole p) := (after_journal hq).symm.trans hp
    cases hslot : q.slot with
    | none =>
        rw [after_slots hslot]
        exact inv.record p hp'
    | some t =>
        obtain ⟨a, hj, hs⟩ := h.slot_write hslot
        rw [hj] at hp'
        cases hp'
        refine (inv.record _ hj).slots_changed ?_
        rw [OtaManager.record_state, hs]
        rfl

/-- The completed commit write. -/
theorem LabelOk.commit {trueVersion : Bytes → String} {g : Option Bytes} (w₀ : OtaWorld)
    (detail : String) {a : OtaManager} {d : Disk} (hL : OrderPreserving trueVersion L)
    (ha : LabelOk L g d.slots a.record) (hs : a.state = .healthChecking)
    (ht : d.tmp = some (.whole a.commit.record)) :
    ∃ b, committedArtifact ⟨.healthCheck true detail, w₀,
        .io (some a.commit) (some a.commit) .renameJournal .ok d⟩ = some b ∧
      (∀ b₀, g = some b₀ → compareVersions (trueVersion b) (trueVersion b₀) = .gt) ∧
      LabelOk L (some b) d.slots a.commit.record := by
  have hbusy : a.record.state.resting = false := by rw [OtaManager.record_state, hs]; rfl
  have hboot : a.record.state.bootable = true := by rw [OtaManager.record_state, hs]; rfl
  obtain ⟨v, b, hv, hart, hvb⟩ := ha.staged hboot
  obtain ⟨v', hv', hgt⟩ := ha.version hbusy
  obtain rfl : v' = v := Option.some.inj (hv'.symm.trans hv)
  have hslot : a.commit.activeSlot = a.activeSlot.other := by
    show a.candidateSlot.getD a.activeSlot.other = _
    rw [show a.candidateSlot = some a.activeSlot.other from ha.candidate hbusy]
    rfl
  have hhigh : a.commit.highestCommittedVersion = some v' := by
    show raiseWatermark a.candidateVersion a.highestCommittedVersion = some v'
    rw [show a.candidateVersion = some v' from hv]
    exact raiseWatermark_of_gt hgt
  refine ⟨b, ?_, ?_, ?_⟩
  · have hafter : (device.after .renameJournal d .ok).slots = d.slots := after_slots rfl
    show ((device.after .renameJournal d .ok).slots
      (device.after .renameJournal d .ok).committedPair.1).artifact = some b
    rw [committedPair_of_whole (after_rename ht), hafter, OtaManager.record_activeSlot, hslot]
    exact hart
  · intro b₀ hb₀
    cases hh : a.highestCommittedVersion with
    | none =>
        rw [ha.unmarked hh] at hb₀
        cases hb₀
    | some h =>
        obtain ⟨b₁, hb₁, hmem⟩ := ha.marked h hh
        obtain rfl : b₁ = b₀ := Option.some.inj (hb₁.symm.trans hb₀)
        exact hL h b₁ v' b hmem hvb (hgt h hh)
  · refine ⟨?_, ?_, nofun, nofun, nofun⟩
    · intro h hh
      obtain rfl : v' = h := Option.some.inj (hhigh.symm.trans hh)
      exact ⟨b, rfl, hvb⟩
    · intro hn
      rw [OtaManager.record_highestCommittedVersion, hhigh] at hn
      cases hn

theorem labelJournal_of_whole {g : Option Bytes} {d : Disk} {p : PersistedOta}
    (hj : d.journal = some (.whole p)) (hp : LabelOk L g d.slots p) : LabelJournal L g d where
  record p' hp' := by
    rw [hj] at hp'
    cases hp'
    exact hp
  fresh hn := by
    rw [hj] at hn
    cases hn

/-- **One request.** -/
theorem LabelIn.request {trueVersion : Bytes → String} {g : Option Bytes} {c : Call} {w₀ : OtaWorld}
    {m m' : Option OtaManager} {d : Disk} {q : Req} {f : Fault Tear}
    (inv : LabelIn key L g w₀ ⟨m, d⟩) (hbind : Binds crypto key sign released)
    (hL : OrderPreserving trueVersion L) (huse : UsesReleaseSignatures sign released c)
    (hlab : Labelled released L ⟨c, w₀, .io m m' q f d⟩) (h : Micro crypto key c w₀ m d m' q) :
    Newer trueVersion g ⟨c, w₀, .io m m' q f d⟩ ∧
      LabelJournal L (lastArtifact g ⟨c, w₀, .io m m' q f d⟩) (device.after q d f) := by
  -- a moment that is no commit write leaves the ghost alone
  have hother : isCommitWrite ⟨c, w₀, .io m m' q f d⟩ = false →
      LabelJournal L g (device.after q d f) →
      Newer trueVersion g ⟨c, w₀, .io m m' q f d⟩ ∧
        LabelJournal L (lastArtifact g ⟨c, w₀, .io m m' q f d⟩) (device.after q d f) := by
    intro hno hj
    refine ⟨fun hyes => ?_, ?_⟩
    · rw [hno] at hyes
      cases hyes
    · rw [lastArtifact, committedArtifact_other hno, Option.none_or]
      exact hj
  by_cases hq : q ≠ .renameJournal ∨ f ≠ .ok
  · exact hother (isCommitWrite_quiet hq) (inv.journal.quiet h hq)
  · obtain ⟨rfl, rfl⟩ := rename_ok_of_not hq
    have hslots : (device.after .renameJournal d .ok).slots = d.slots := after_slots rfl
    cases h with
    | renameInitial hc hj ht =>
        subst hc
        refine hother rfl (labelJournal_of_whole (after_rename ht) ?_)
        rw [inv.journal.fresh hj]
        exact labelOk_initial
    | rename hassign hj hs ht =>
        have ha : LabelOk L g d.slots _ :=
          inv.journal.record _ (hj.trans (hassign.source_journaled inv.synced))
        rcases hassign.commit_or_keep with ⟨_, ⟨detail, rfl⟩, _, hst, rfl⟩ | ⟨hc, _, hhigh⟩
        · obtain ⟨b, hb, hnewer, hok⟩ := ha.commit w₀ detail hL hst ht
          refine ⟨fun _ => ⟨b, hb, hnewer⟩, labelJournal_of_whole (after_rename ht) ?_⟩
          rw [hslots, lastArtifact, hb, Option.some_or]
          exact hok
        · refine hother (hassign.isCommitWrite_of_keep hc) (labelJournal_of_whole (after_rename ht) ?_)
          rw [hslots, hs]
          rw [hs] at ha
          exact hassign.labelOk hbind huse hlab inv.entry ha hhigh

theorem Return.keyed {mf : Req → Prop} {c : Call} {w₀ : OtaWorld} {m m' : Option OtaManager}
    {d : Disk} {r : Except OtaError Reply} (h : Return key mf c w₀ m d (r, m'))
    (hk : Keyed key m) : Keyed key m' := by
  cases h with
  | noManager _ => exact fun a ha => by cases ha
  | killed _ => exact fun a ha => by cases ha
  | openFailed _ => exact fun a ha => by cases ha
  | openedFresh _ _ => exact hk
  | opened _ _ =>
      rintro _ ⟨⟩
      rfl
  | ingested _ _ _ =>
      have ha := hk _ rfl
      rintro _ ⟨⟩
      exact ha
  | settled _ => exact hk
  | cut _ => exact hk

end Labels

def labelInvariant {crypto : Crypto} {key : Bytes} {sign : Bytes → Bytes} {released : Set Bytes}
    {L : Set (String × Bytes)} {trueVersion : Bytes → String}
    (hbind : Binds crypto key sign released) (hL : OrderPreserving trueVersion L) :
    Invariant (ota crypto key) slotErrorsOnly
      (fun s => UsesReleaseSignatures sign released s.call ∧ Labelled released L s)
      (Micro crypto key) (Return key slotErrorsOnly) (Option Bytes) where
  upd := lastArtifact
  At := LabelInv key L
  In g _ w₀ w := LabelIn key L g w₀ w
  Good := Newer trueVersion
  enter h := ⟨h.synced, h.keyed, h.keyed, h.journal⟩
  live {g c w₀ m d m' q f} inv h hadm _ _ := by
    obtain ⟨hnewer, hj⟩ := inv.request hbind hL hadm.1 hadm.2 h
    exact ⟨hnewer, inv.synced, inv.entry, inv.keyed.request h, hj⟩
  die {g c w₀ m d m' q t} inv h hadm := by
    obtain ⟨hnewer, hj⟩ := inv.request hbind hL hadm.1 hadm.2 h
    exact ⟨hnewer, fun a ha => (by cases ha), fun a ha => (by cases ha), hj⟩
  ret {g c w₀ m d b m'} inv h _ := by
    have hno : isCommitWrite ⟨c, w₀, .ret m m' b d⟩ = false := isCommitWrite_ret
    refine ⟨fun hyes => ?_, h.synced inv.synced, h.keyed inv.keyed, ?_⟩
    · rw [hno] at hyes
      cases hyes
    · rw [lastArtifact, committedArtifact_other hno, Option.none_or]
      exact inv.journal

theorem labelInv_factory (key : Bytes) (L : Set (String × Bytes)) (slots : Slot → SlotDir) :
    LabelInv key L none (factory slots) where
  synced a ha := by cases ha
  keyed a ha := by cases ha
  journal := { record := fun p hp => (by cases hp), fresh := fun _ => rfl }

/-- Newer at every commit write is increasing along the list of committed artifacts. -/
theorem chain_of_newer {trueVersion : Bytes → String} {steps : List OtaStep} {g : Option Bytes}
    (h : Along lastArtifact (Newer trueVersion) g steps) :
    ((g.toList ++ committedArtifacts steps).map trueVersion).IsChain
      fun u v => compareVersions v u = .gt := by
  induction steps generalizing g with
  | nil =>
      cases g with
      | none => exact .nil
      | some b => exact .singleton _
  | cons s rest ih =>
      obtain ⟨hs, hrest⟩ := h
      cases ha : committedArtifact s with
      | none =>
          rw [lastArtifact, ha, Option.none_or] at hrest
          rw [committedArtifacts, List.filterMap_cons_none ha]
          exact ih hrest
      | some b =>
          rw [lastArtifact, ha, Option.some_or] at hrest
          rw [committedArtifacts, List.filterMap_cons_some ha]
          have htail := ih hrest
          have hwrite : isCommitWrite s = true := by
            by_contra hno
            rw [committedArtifact_other (Bool.eq_false_iff.mpr hno)] at ha
            cases ha
          obtain ⟨b', hb', hnewer⟩ := hs hwrite
          obtain rfl : b' = b := Option.some.inj (hb'.symm.trans ha)
          cases g with
          | none => exact htail
          | some b₀ => exact .cons_cons (hnewer b₀ rfl) htail

/-- **No rollback while labels keep the order.** Let the adversary hold release signatures only, and
let the labels under which release artifacts reach `verify` never order two of them differently from
their true versions. Then in every run, with crashes anywhere, each artifact a healthy check commits
is of a true version `Greater` than the one committed immediately before it. -/
theorem committed_artifacts_increase (crypto : Crypto) (key : Bytes) (sign : Bytes → Bytes)
    (released : Set Bytes) (trueVersion : Bytes → String) (L : Set (String × Bytes))
    (hbind : Binds crypto key sign released) (hL : OrderPreserving trueVersion L)
    (slots : Slot → SlotDir) (sched : Schedule)
    (huse : ∀ c ∈ sched, UsesReleaseSignatures sign released c.1)
    (hfail : ∀ s ∈ ((ota crypto key).run sched (factory slots)).1, FailsOnly slotErrorsOnly s)
    (hlab : ∀ s ∈ ((ota crypto key).run sched (factory slots)).1, Labelled released L s) :
    ((committedArtifacts ((ota crypto key).run sched (factory slots)).1).map trueVersion).IsChain
      fun u v => compareVersions v u = .gt := by
  have hadm : ∀ s ∈ ((ota crypto key).run sched (factory slots)).1, FailsOnly slotErrorsOnly s ∧
      UsesReleaseSignatures sign released s.call ∧ Labelled released L s := by
    intro s hs
    obtain ⟨fs, hfs⟩ := System.call_mem_of_mem_run _ hs
    exact ⟨hfail s hs, huse _ hfs, hlab s hs⟩
  have halong := ((labelInvariant hbind hL).along_run (ota_follows crypto key _) sched
    (labelInv_factory key L slots) hadm).1
  exact chain_of_newer halong

/-! ## §3 The two signed artifacts, labelled honestly and not. -/

theorem signedManifest_uses {crypto : Crypto} {sign : Bytes → Bytes} {released : Set Bytes}
    {b : Bytes} (hb : b ∈ released) (v : String) :
    UsesReleaseSignatures sign released (.verify (signedManifest crypto sign b v)) := by
  rintro manifest ⟨⟩ sig hsig
  refine ⟨b, hb, ?_⟩
  have hhex : (signedManifest crypto sign b v).signatureHex.toList = hexEncode (sign b) :=
    String.toList_ofList
  rw [hhex, trim_hexEncode, hexDecode_hexEncode] at hsig
  exact (Option.some.inj hsig).symm

/-- The release history of the concrete runs: `[1]` is version `1.0.0`, `[]` is version `2.0.0`. -/
def releaseVersion (b : Bytes) : String := if b = [] then "2.0.0" else "1.0.0"

def releaseArtifacts : Set Bytes := { b | b = [] ∨ b = [1] }

theorem tabulated_binds : Binds tabulated releaseKey releaseSign releaseArtifacts := by
  have hne : releaseSign [] ≠ releaseSign [1] := by decide
  rintro vk _ b hb bytes hv
  have hv' : vk = releaseKey ∧ (bytes = [] ∨ bytes = [1]) ∧ releaseSign b = releaseSign bytes :=
    of_decide_eq_true hv
  obtain ⟨_, hbytes, hsig⟩ := hv'
  rcases hb with rfl | rfl <;> rcases hbytes with rfl | rfl
  · rfl
  · exact absurd hsig hne
  · exact absurd hsig.symm hne
  · rfl

/-- The first `open` and two complete updates. -/
def twoUpdates (b₁ : Bytes) (v₁ : String) (b₂ : Bytes) (v₂ : String) : Schedule :=
  (.open, []) :: (fullUpdate b₁ v₁ ++ fullUpdate b₂ v₂)

theorem twoUpdates_uses {b₁ b₂ : Bytes} (h₁ : b₁ ∈ releaseArtifacts) (h₂ : b₂ ∈ releaseArtifacts)
    (v₁ v₂ : String) :
    ∀ c ∈ twoUpdates b₁ v₁ b₂ v₂, UsesReleaseSignatures releaseSign releaseArtifacts c.1 := by
  simp only [twoUpdates, fullUpdate, updateCalls, List.cons_append, List.nil_append, List.mem_cons,
    List.not_mem_nil, or_false]
  rintro c (rfl | rfl | rfl | rfl | rfl | rfl | rfl | rfl | rfl | rfl | rfl | rfl | rfl)
  all_goals first
    | exact signedManifest_uses h₁ _
    | exact signedManifest_uses h₂ _
    | (intro manifest hverify
       cases hverify)

/-- The label is the true version. -/
def honestLabels : Set (String × Bytes) := { x | x.1 = releaseVersion x.2 }

theorem honestLabels_orderPreserving : OrderPreserving releaseVersion honestLabels := by
  intro l₁ b₁ l₂ b₂ h₁ h₂ hgt
  have h₁' : l₁ = releaseVersion b₁ := h₁
  have h₂' : l₂ = releaseVersion b₂ := h₂
  rw [h₁', h₂'] at hgt
  exact hgt

/-- An executable check of `Labelled` for honest labels. -/
def labelledHonestly (s : OtaStep) : Bool :=
  match s.call, s.entry.mem with
  | .verify _, some a => decide (a.candidateVersion = some (releaseVersion a.buffered))
  | _, _ => true

theorem labelled_of_honestly {s : OtaStep} (h : labelledHonestly s = true) :
    Labelled releaseArtifacts honestLabels s := by
  intro manifest a v hc hmem _ hv
  simp only [labelledHonestly, hc, hmem, decide_eq_true_eq] at h
  exact Option.some.inj (hv.symm.trans h)

/-- Honest labels: `1.0.0` and then `2.0.0`. -/
def honestUpdates : List OtaStep :=
  ((ota tabulated releaseKey).run (twoUpdates [1] "1.0.0" [] "2.0.0") (factory emptySlots)).1

theorem committed_artifacts_increase_honestUpdates :
    ((committedArtifacts honestUpdates).map releaseVersion).IsChain
      fun u v => compareVersions v u = .gt := by
  have hcheck : honestUpdates.all labelledHonestly = true := by decide +kernel
  have hlab : ∀ s ∈ honestUpdates, Labelled releaseArtifacts honestLabels s :=
    fun s hs => labelled_of_honestly (List.all_eq_true.mp hcheck s hs)
  have hnil : ∀ c ∈ twoUpdates [1] "1.0.0" [] "2.0.0", c.2 = [] := by
    simp [twoUpdates, fullUpdate, updateCalls]
  exact committed_artifacts_increase tabulated releaseKey releaseSign releaseArtifacts
    releaseVersion honestLabels tabulated_binds honestLabels_orderPreserving emptySlots _
    (twoUpdates_uses (.inr rfl) (.inl rfl) _ _) (System.run_nil_failsOnly _ hnil _) hlab

/-- The old artifact under a new label: `2.0.0`, then `1.0.0` labelled `9.0.0`. -/
def relabelledUpdates : List OtaStep :=
  ((ota tabulated releaseKey).run (twoUpdates [] "2.0.0" [1] "9.0.0") (factory emptySlots)).1

/-- **The signature does not bind the label.** With release signatures only and no fault at all, the
artifact of true version `1.0.0` is committed right after the one of true version `2.0.0`. -/
theorem relabelled_artifact_rolls_back :
    Binds tabulated releaseKey releaseSign releaseArtifacts ∧
      (∀ c ∈ twoUpdates [] "2.0.0" [1] "9.0.0",
        UsesReleaseSignatures releaseSign releaseArtifacts c.1) ∧
      committedArtifacts relabelledUpdates = [[], [1]] ∧
      ¬ ((committedArtifacts relabelledUpdates).map releaseVersion).IsChain
        fun u v => compareVersions v u = .gt := by
  have hcommits : committedArtifacts relabelledUpdates = [[], [1]] := by decide +kernel
  refine ⟨tabulated_binds, twoUpdates_uses (.inl rfl) (.inr rfl) _ _, hcommits, ?_⟩
  rw [hcommits]
  decide

end Edgewarden.Ota
