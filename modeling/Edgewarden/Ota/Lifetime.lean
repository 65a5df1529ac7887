/-
# Edgewarden.Ota.Lifetime — rollback protection over the whole life of a device.

`committedVersions` lists the versions of the `health_check(true)` calls that returned `Ok`. The
manager remembers only the LAST watermark, so the order of the list is as good as
`compare_versions` is transitive:

* `commits_pairwise_greater_iff`: for a set of version strings, every run that is offered only these
  versions commits pairwise increasing ones IF AND ONLY IF `Greater` is transitive on the set.
* `commits_not_pairwise_greater`: `10`, `1a`, `9` are committed one after the other, and `9` is below
  `10`. The components of one position that parse as `u64` are compared as numbers, the others as
  text, and the two orders do not fit together.
* `greater_trans_of_conforms`: versions of one shape (position by position all numbers, or none) are
  safe.
-/
import Edgewarden.Ota.Commit
import Edgewarden.Ota.Update

namespace Edgewarden.Ota

open Edgewarden.FaultIo

/-! ## §1 Acknowledged commits are journaled. -/

/-- The version a commit write records: the candidate the call was issued with. -/
def journaledVersion (s : OtaStep) : Option String :=
  if isCommitWrite s then s.entry.mem.bind fun a => a.candidateVersion else none

def journaledVersions (steps : List OtaStep) : List String := steps.filterMap journaledVersion

/-- `persist` on fields `m`, then `Ok(())`, as a tree of requests. -/
def persisting (m : OtaManager) :
    Prog (Option OtaManager) Req (Except OtaError Reply × Option OtaManager) :=
  .call (some m) (.writeTmp m.record) fun
    | false => .done (.error .io, some m)
    | true => .call (some m) .syncTmp fun _ => .call (some m) .renameJournal fun
        | false => .done (.error .io, some m)
        | true => .call (some m) .syncDir fun _ => .done (.ok .unit, some m)

section Acknowledged

variable {crypto : Crypto} {key : Bytes}

/-- A healthy check in `HealthChecking` is the commit assignment and one `persist`. -/
theorem healthCheck_eq_persisting {detail : String} {m : OtaManager} {d : Disk}
    (hs : m.state = .healthChecking) :
    callProg crypto key (.healthCheck true detail) ⟨some m, d⟩ = persisting m.commit := by
  obtain ⟨s, _, _, _, _, _, _, _⟩ := m
  subst hs
  -- both answers to a `sync_all` lead to the same program
  have hdir : ∀ {p : Bool → Prog (Option OtaManager) Req (Except OtaError Reply × Option OtaManager)}
      {q : Prog (Option OtaManager) Req (Except OtaError Reply × Option OtaManager)},
      p true = q → p false = q → p = fun _ => q := by
    intro p q ht hf
    funext b
    cases b
    · exact hf
    · exact ht
  have hrename : ∀ {p q : Bool → Prog (Option OtaManager) Req
      (Except OtaError Reply × Option OtaManager)},
      p true = q true → p false = q false → p = q := by
    intro p q ht hf
    funext b
    cases b
    · exact hf
    · exact ht
  refine congrArg₂ (Prog.call _) rfl (hrename ?_ rfl)
  refine congrArg₂ (Prog.call _) rfl (hdir ?_ ?_)
  · exact congrArg₂ (Prog.call _) rfl (hrename (congrArg₂ (Prog.call _) rfl (hdir rfl rfl)) rfl)
  · exact congrArg₂ (Prog.call _) rfl (hrename (congrArg₂ (Prog.call _) rfl (hdir rfl rfl)) rfl)

theorem healthCheck_eq_error {healthy : Bool} {detail : String} {m : OtaManager} {d : Disk}
    (hs : m.state ≠ .healthChecking) :
    callProg crypto key (.healthCheck healthy detail) ⟨some m, d⟩ =
      .done (.error (.invalidTransition m.state), some m) := by
  obtain ⟨s, _, _, _, _, _, _, _⟩ := m
  cases s <;> first | rfl | exact absurd rfl hs

/-- `persist` returns `Ok` only past its completed `rename`. -/
theorem persisting_ok_sublist {detail : String} {w : OtaWorld} {m : OtaManager}
    {prev : Option OtaManager} {fs : List (Fault Tear)} {d : Disk} :
    (committedVersions (((persisting m).exec device none prev fs d).1.map
        (Step.mk (.healthCheck true detail) w))).Sublist
      (journaledVersions (((persisting m).exec device none prev fs d).1.map
        (Step.mk (.healthCheck true detail) w))) := by
  -- a request that fails for good ends the call without an acknowledgement
  have hnil : ∀ vs : List String, List.Sublist [] vs := List.nil_sublist
  cases h₁ : fs.headD .ok with
  | die t => simp only [persisting, Prog.exec, h₁]; exact hnil _
  | fail t => simp only [persisting, Prog.exec, h₁]; exact hnil _
  | ok =>
      cases h₂ : fs.tail.headD .ok with
      | die t => simp only [persisting, Prog.exec, h₁, h₂]; exact hnil _
      | _ =>
          cases h₃ : fs.tail.tail.headD .ok with
          | die t => simp only [persisting, Prog.exec, h₁, h₂, h₃]; exact hnil _
          | fail t => simp only [persisting, Prog.exec, h₁, h₂, h₃]; exact hnil _
          | ok =>
              cases h₄ : fs.tail.tail.tail.headD .ok with
              | die t => simp only [persisting, Prog.exec, h₁, h₂, h₃, h₄]; exact hnil _
              | _ =>
                  simp only [persisting, Prog.exec, h₁, h₂, h₃, h₄]
                  exact List.Sublist.refl _

/-- What one call acknowledges, it journaled. -/
theorem acknowledged_sublist_call {c : Call} {w : OtaWorld} {fs : List (Fault Tear)} :
    (committedVersions (((callProg crypto key c w).exec device none w.mem fs w.disk).1.map
        (Step.mk c w))).Sublist
      (journaledVersions (((callProg crypto key c w).exec device none w.mem fs w.disk).1.map
        (Step.mk c w))) := by
  have hother : (∀ b, acknowledgedBy c w b = []) →
      committedVersions (((callProg crypto key c w).exec device none w.mem fs w.disk).1.map
        (Step.mk c w)) = [] := by
    intro hnone
    rw [committedVersions_call]
    exact List.flatMap_eq_nil_iff.mpr fun b _ => hnone b
  cases c with
  | healthCheck healthy detail =>
      cases healthy with
      | false =>
          rw [hother fun _ => rfl]
          exact List.nil_sublist _
      | true =>
          obtain ⟨m, d⟩ := w
          cases m with
          | none => exact List.Sublist.refl _
          | some m =>
              by_cases hs : m.state = .healthChecking
              · rw [healthCheck_eq_persisting hs]
                exact persisting_ok_sublist
              · rw [healthCheck_eq_error hs]
                exact List.Sublist.refl _
  | _ =>
      rw [hother fun _ => rfl]
      exact List.nil_sublist _

/-- **Every acknowledged commit is a journaled one**, in the same order. -/
theorem acknowledged_sublist (sched : Schedule) (w : OtaWorld) :
    (committedVersions ((ota crypto key).run sched w).1).Sublist
      (journaledVersions ((ota crypto key).run sched w).1) := by
  induction sched generalizing w with
  | nil => exact List.Sublist.refl _
  | cons head rest ih =>
      obtain ⟨c, fs⟩ := head
      show (committedVersions (_ ++ _)).Sublist (journaledVersions (_ ++ _))
      unfold committedVersions journaledVersions
      rw [List.filterMap_append, List.filterMap_append]
      exact acknowledged_sublist_call.append (ih _)

end Acknowledged

/-! ## §2 The watermark dominates every journaled commit. -/

section Watermark

/-- `Greater` is transitive on a set of versions. -/
def GreaterTransOn (V : Set String) : Prop :=
  ∀ u ∈ V, ∀ v ∈ V, ∀ w ∈ V, compareVersions u v = .gt → compareVersions v w = .gt →
    compareVersions u w = .gt

/-- `start_download` is offered versions of the set only. -/
def OffersOnly (V : Set String) (c : Call) : Prop :=
  ∀ manifest, c = .startDownload manifest → manifest.version ∈ V

variable (V : Set String)

/-- What a record knows about the versions committed so far. -/
structure Dominates (g : List String) (p : PersistedOta) : Prop where
  offered : ∀ h, p.highestCommittedVersion = some h → h ∈ V
  above : ∀ u ∈ g, ∃ h, p.highestCommittedVersion = some h ∧
    (h = u ∨ compareVersions h u = .gt)
  candidate : p.state.resting = false → ∃ v, p.candidateVersion = some v ∧ v ∈ V ∧
    ∀ h, p.highestCommittedVersion = some h → compareVersions v h = .gt

structure LifeInv (g : List String) (w : OtaWorld) : Prop where
  memory : ∀ a, w.mem = some a → Dominates V g a.record
  journal : ∀ p, w.disk.journal = some (.whole p) → Dominates V g p
  fresh : w.disk.journal = none → g = []
  committed : ∀ u ∈ g, u ∈ V
  increasing : g.Pairwise fun u v => compareVersions v u = .gt

variable {V} {crypto : Crypto} {key : Bytes}

theorem dominates_initial : Dominates V [] (OtaManager.initial key).record where
  offered h hh := by cases hh
  above u hu := by cases hu
  candidate h := by cases h

/-- The commit branch: the candidate is above every version committed so far. This is where the
order has to be carried from the watermark back to older commits. -/
theorem Dominates.commit {g : List String} {a : OtaManager} (ha : Dominates V g a.record)
    (htrans : GreaterTransOn V) (hg : ∀ u ∈ g, u ∈ V) (hs : a.state = .healthChecking) :
    ∃ v, a.candidateVersion = some v ∧ v ∈ V ∧ a.commit.highestCommittedVersion = some v ∧
      ∀ u ∈ g, compareVersions v u = .gt := by
  have hbusy : a.record.state.resting = false := by rw [OtaManager.record_state, hs]; rfl
  obtain ⟨v, hv, hvV, hgt⟩ := ha.candidate hbusy
  rw [OtaManager.record_candidateVersion] at hv
  refine ⟨v, hv, hvV, ?_, ?_⟩
  · show raiseWatermark a.candidateVersion a.highestCommittedVersion = some v
    rw [hv]
    exact raiseWatermark_of_gt hgt
  · intro u hu
    obtain ⟨h, hh, rfl | hhu⟩ := ha.above u hu
    · exact hgt h hh
    · exact htrans v hvV h (ha.offered h hh) u (hg u hu) (hgt h hh) hhu

/-- Every assignment keeps the watermark above the versions committed so far. -/
theorem Assign.dominates {g : List String} {w₀ : OtaWorld} {c : Call} {a b : OtaManager} {d : Disk}
    (h : Assign crypto w₀ c a d b) (htrans : GreaterTransOn V) (hg : ∀ u ∈ g, u ∈ V)
    (hoff : OffersOnly V c) (ha : Dominates V g a.record) : Dominates V g b.record := by
  rcases h.commit_or_keep with ⟨_, _, _, hs, rfl⟩ | ⟨_, _, hhigh⟩
  · obtain ⟨v, _, hvV, hv, habove⟩ := ha.commit htrans hg hs
    refine ⟨?_, ?_, nofun⟩
    · intro h hh
      rw [OtaManager.record_highestCommittedVersion, hv, Option.some.injEq] at hh
      exact hh ▸ hvV
    · intro u hu
      exact ⟨v, hv, .inr (habove u hu)⟩
  · refine ⟨?_, ?_, ?_⟩
    · intro h hh
      rw [OtaManager.record_highestCommittedVersion, hhigh] at hh
      exact ha.offered h hh
    · intro u hu
      rw [OtaManager.record_highestCommittedVersion, hhigh]
      exact ha.above u hu
    · intro hb
      rcases h.busy_version hb with ⟨manifest, hc, hv, hgt⟩ | ⟨_, hbusy, hv, hh⟩
      · exact ⟨_, hv, hoff manifest hc, hgt⟩
      · rw [OtaManager.record_candidateVersion, hv, OtaManager.record_highestCommittedVersion, hh]
        exact ha.candidate hbusy

/-- The record a commit write puts in the journal dominates its own version too. -/
theorem Dominates.snoc {g : List String} {p : PersistedOta} {v : String} (h : Dominates V g p)
    (hv : p.highestCommittedVersion = some v) : Dominates V (g ++ [v]) p where
  offered := h.offered
  above u hu := by
    rcases List.mem_append.mp hu with hu | hu
    · exact h.above u hu
    · exact ⟨v, hv, .inl (List.mem_singleton.mp hu).symm⟩
  candidate := h.candidate

/-- The ghost: journaled commits so far. -/
def commitsAfter (g : List String) (s : OtaStep) : List String := g ++ (journaledVersion s).toList

theorem foldl_commitsAfter (steps : List OtaStep) (g : List String) :
    steps.foldl commitsAfter g = g ++ journaledVersions steps := by
  induction steps generalizing g with
  | nil => simp [journaledVersions]
  | cons s rest ih =>
      rw [List.foldl_cons, ih, commitsAfter, List.append_assoc]
      congr 1
      unfold journaledVersions
      rw [List.filterMap_cons]
      cases journaledVersion s <;> rfl

theorem commitsAfter_other {g : List String} {s : OtaStep} (h : isCommitWrite s = false) :
    commitsAfter g s = g := by
  simp [commitsAfter, journaledVersion, h]

/-- A healthy check whose commit write is behind it: nothing is left in the temporary file. -/
def CommitDone (c : Call) (w₀ w : OtaWorld) : Prop :=
  (∃ detail, c = .healthCheck true detail) ∧ w.disk.tmp = none ∧
    ∃ a, w₀.mem = some a ∧ a.state = .healthChecking ∧ w.mem = some a.commit

/-- The invariant inside a call. Until the commit write the fields the call was issued with
dominate the ghost list; after it the call only syncs. -/
structure LifeIn (V : Set String) (g : List String) (c : Call) (w₀ w : OtaWorld) : Prop where
  inv : LifeInv V g w
  stage : (∀ a, w₀.mem = some a → Dominates V g a.record) ∨ CommitDone c w₀ w

/-- After its commit write a healthy check changes neither fields nor temporary file, and in
particular renames nothing. -/
theorem CommitDone.request {c : Call} {w₀ : OtaWorld} {m m' : Option OtaManager} {d : Disk}
    {q : Req} {f : Fault Tear} (h : CommitDone c w₀ ⟨m, d⟩) (hm : Micro crypto key c w₀ m d m' q) :
    q ≠ .renameJournal ∧ CommitDone c w₀ ⟨m', device.after q d f⟩ := by
  obtain ⟨⟨detail, rfl⟩, htmp, a, hw, hs, hmem⟩ := h
  have hsync : ∀ q : Req, q = .syncTmp ∨ q = .syncDir → device.after q d f = d := by
    rintro q (rfl | rfl) <;> rcases f with _ | ⟨_ | _⟩ | ⟨_ | _⟩ <;> rfl
  cases hm with
  | createDir hc => cases hc
  | readJournal hc => cases hc
  | writeInitial hc _ => cases hc
  | renameInitial hc _ _ => cases hc
  | writeTmp hassign =>
      -- a second commit would have to start from the fields of the first
      obtain ⟨_, hs', _⟩ := hassign.of_healthy
      cases hmem
      cases hs'
  | syncTmp =>
      refine ⟨nofun, ⟨detail, rfl⟩, ?_, a, hw, hs, hmem⟩
      rw [hsync _ (.inl rfl)]
      exact htmp
  | rename _ _ _ ht => rw [htmp] at ht; cases ht
  | syncDir =>
      refine ⟨nofun, ⟨detail, rfl⟩, ?_, a, hw, hs, hmem⟩
      rw [hsync _ (.inr rfl)]
      exact htmp
  | createSlotDir hst => cases hst.call
  | writeArtifact hst => cases hst.call
  | writeVersion hst _ => cases hst.call

/-- The fields at a request dominate the ghost list as it was before the request. -/
theorem LifeInv.memory_at {g : List String} {c : Call} {w₀ : OtaWorld} {m m' : Option OtaManager}
    {d : Disk} {q : Req} (inv : LifeInv V g ⟨m, d⟩) (htrans : GreaterTransOn V)
    (hoff : OffersOnly V c) (h : Micro crypto key c w₀ m d m' q) :
    ∀ a, m' = some a → Dominates V g a.record := by
  cases h with
  | createDir _ => exact fun a ha => by cases ha
  | readJournal _ => exact fun a ha => by cases ha
  | writeInitial _ hj =>
      rintro a ⟨⟩
      rw [inv.fresh hj]
      exact dominates_initial
  | writeTmp hassign =>
      rintro b ⟨⟩
      exact hassign.dominates htrans inv.committed hoff (inv.memory _ rfl)
  | renameInitial _ _ _ => exact inv.memory
  | syncTmp => exact inv.memory
  | rename _ _ _ _ => exact inv.memory
  | syncDir => exact inv.memory
  | createSlotDir _ => exact inv.memory
  | writeArtifact _ => exact inv.memory
  | writeVersion _ _ => exact inv.memory

/-- A request that completes no `rename`. -/
theorem LifeIn.quiet {g : List String} {c : Call} {w₀ : OtaWorld} {m m' : Option OtaManager}
    {d : Disk} {q : Req} {f : Fault Tear} (inv : LifeIn V g c w₀ ⟨m, d⟩)
    (htrans : GreaterTransOn V) (hoff : OffersOnly V c) (h : Micro crypto key c w₀ m d m' q)
    (hq : q ≠ .renameJournal ∨ f ≠ .ok) : LifeIn V g c w₀ ⟨m', device.after q d f⟩ where
  inv :=
    { memory := inv.inv.memory_at htrans hoff h
      journal := by rw [after_journal hq]; exact inv.inv.journal
      fresh := by rw [after_journal hq]; exact inv.inv.fresh
      committed := inv.inv.committed
      increasing := inv.inv.increasing }
  stage := inv.stage.imp id fun hdone => (hdone.request h).2

/-- The completed commit write: the ghost list grows by the candidate, which is above all of it. -/
theorem LifeIn.commit_write {g : List String} {w₀ : OtaWorld} {b : OtaManager} {d d₁ : Disk}
    {detail : String} {a : OtaManager} (inv : LifeIn V g (.healthCheck true detail) w₀ ⟨some b, d⟩)
    (htrans : GreaterTransOn V) (h : Assign crypto w₀ (.healthCheck true detail) a d₁ b)
    (ht : d.tmp = some (.whole b.record)) :
    LifeIn V (commitsAfter g ⟨.healthCheck true detail, w₀, .io (some b) (some b) .renameJournal .ok d⟩)
      (.healthCheck true detail) w₀ ⟨some b, device.after .renameJournal d .ok⟩ := by
  obtain ⟨he, hs, rfl⟩ := h.of_healthy
  have hentry : Dominates V g a.record := by
    rcases inv.stage with hall | ⟨_, htmp, _⟩
    · exact hall a he.mem
    · rw [htmp] at ht
      cases ht
  obtain ⟨v, hv, hvV, hhigh, habove⟩ := hentry.commit htrans inv.inv.committed hs
  have hghost : commitsAfter g ⟨.healthCheck true detail, w₀,
      .io (some a.commit) (some a.commit) .renameJournal .ok d⟩ = g ++ [v] := by
    have hversion : journaledVersion ⟨.healthCheck true detail, w₀,
        .io (some a.commit) (some a.commit) .renameJournal .ok d⟩ = some v := by
      show w₀.mem.bind (fun a => a.candidateVersion) = some v
      rw [he.mem]
      exact hv
    rw [commitsAfter, hversion]
    rfl
  have hdom : Dominates V (g ++ [v]) a.commit.record := (inv.inv.memory _ rfl).snoc hhigh
  rw [hghost]
  refine ⟨⟨?_, ?_, ?_, ?_, ?_⟩, .inr ⟨⟨detail, rfl⟩, ?_, a, he.mem, hs, rfl⟩⟩
  · rintro _ ⟨⟩
    exact hdom
  · rw [after_rename ht]
    rintro _ ⟨⟩
    exact hdom
  · rw [after_rename ht]
    exact nofun
  · intro u hu
    rcases List.mem_append.mp hu with hu | hu
    · exact inv.inv.committed u hu
    · rw [List.mem_singleton.mp hu]
      exact hvV
  · refine List.pairwise_append.mpr ⟨inv.inv.increasing, List.pairwise_singleton _ _, ?_⟩
    intro u hu w hw
    rw [List.mem_singleton.mp hw]
    exact habove u hu
  · show (Req.renameJournal.complete d).tmp = none
    simp [Req.complete, ht]

/-- Any other completed `rename` puts the fields, which dominate the list, in the journal. -/
theorem LifeIn.other_write {g : List String} {c : Call} {w₀ : OtaWorld} {b : OtaManager} {d : Disk}
    (inv : LifeIn V g c w₀ ⟨some b, d⟩) (hc : ∀ detail, c ≠ .healthCheck true detail)
    (ht : d.tmp = some (.whole b.record)) :
    LifeIn V g c w₀ ⟨some b, device.after .renameJournal d .ok⟩ where
  inv :=
    { memory := inv.inv.memory
      journal := by
        rw [after_rename ht]
        rintro _ ⟨⟩
        exact inv.inv.memory b rfl
      fresh := by
        rw [after_rename ht]
        exact nofun
      committed := inv.inv.committed
      increasing := inv.inv.increasing }
  stage := inv.stage.imp id fun hdone => absurd hdone.1.choose_spec (hc _)

theorem isCommitWrite_of_ne {c : Call} {w₀ : OtaWorld}
    {e : Event (Option OtaManager) Req Tear Disk (Except OtaError Reply)}
    (hc : ∀ detail, c ≠ .healthCheck true detail) : isCommitWrite ⟨c, w₀, e⟩ = false := by
  unfold isCommitWrite
  split
  · exact absurd (by assumption) (hc _)
  · rfl

/-- **One request, whatever comes of it.** -/
theorem LifeIn.request {g : List String} {c : Call} {w₀ : OtaWorld} {m m' : Option OtaManager}
    {d : Disk} {q : Req} {f : Fault Tear} (inv : LifeIn V g c w₀ ⟨m, d⟩)
    (htrans : GreaterTransOn V) (hoff : OffersOnly V c) (h : Micro crypto key c w₀ m d m' q) :
    LifeIn V (commitsAfter g ⟨c, w₀, .io m m' q f d⟩) c w₀ ⟨m', device.after q d f⟩ := by
  by_cases hq : q ≠ .renameJournal ∨ f ≠ .ok
  · rw [commitsAfter_other (isCommitWrite_quiet hq)]
    exact inv.quiet htrans hoff h hq
  · obtain ⟨rfl, rfl⟩ := rename_ok_of_not hq
    cases h with
    | renameInitial hc _ ht =>
        have hne : ∀ detail, c ≠ .healthCheck true detail := by
          rw [hc]
          exact nofun
        rw [commitsAfter_other (isCommitWrite_of_ne hne)]
        exact inv.other_write hne ht
    | rename hassign _ _ ht =>
        by_cases hc : ∃ detail, c = .healthCheck true detail
        · obtain ⟨detail, rfl⟩ := hc
          exact inv.commit_write htrans hassign ht
        · have hne : ∀ detail, c ≠ .healthCheck true detail := fun detail hd => hc ⟨detail, hd⟩
          rw [commitsAfter_other (isCommitWrite_of_ne hne)]
          exact inv.other_write hne ht

theorem LifeInv.gone {g : List String} {w : OtaWorld} (h : LifeInv V g w) :
    LifeInv V g ⟨none, w.disk⟩ :=
  { h with memory := fun a ha => by cases ha }

/-- A return leaves the fields of the call, or those the journal holds. -/
theorem LifeInv.after_return {g : List String} {mf : Req → Prop} {c : Call} {w₀ : OtaWorld}
    {m m' : Option OtaManager} {d : Disk} {r : Except OtaError Reply} (inv : LifeInv V g ⟨m, d⟩)
    (h : Return key mf c w₀ m d (r, m')) : LifeInv V g ⟨m', d⟩ := by
  cases h with
  | noManager _ => exact inv.gone
  | killed _ => exact inv.gone
  | openFailed _ => exact inv.gone
  | openedFresh _ _ => exact inv
  | opened _ hj =>
      have hp := inv.journal _ hj
      refine { inv with memory := ?_ }
      rintro _ ⟨⟩
      exact hp
  | ingested _ _ _ =>
      have ha := inv.memory _ rfl
      refine { inv with memory := ?_ }
      rintro _ ⟨⟩
      exact ha
  | settled _ => exact inv
  | cut _ => exact inv

end Watermark

def lifeInvariant (crypto : Crypto) (key : Bytes) {V : Set String} (htrans : GreaterTransOn V) :
    Invariant (ota crypto key) (fun _ => True) (fun s => OffersOnly V s.call) (Micro crypto key)
      (Return key fun _ => True) (List String) where
  upd := commitsAfter
  At := LifeInv V
  In := LifeIn V
  Good _ _ := True
  enter h := ⟨h, .inl h.memory⟩
  live inv h hoff _ _ := ⟨trivial, inv.request htrans hoff h⟩
  die {g c w₀ m d m' q t} inv h hoff :=
    ⟨trivial, (inv.request (f := .die t) htrans hoff h).inv.gone⟩
  ret {g c w₀ m d b m'} inv h _ := by
    rw [commitsAfter_other isCommitWrite_ret]
    exact ⟨trivial, inv.inv.after_return h⟩

theorem lifeInv_factory (V : Set String) (slots : Slot → SlotDir) : LifeInv V [] (factory slots) where
  memory a ha := by cases ha
  journal p hp := by cases hp
  fresh _ := rfl
  committed u hu := by cases hu
  increasing := List.Pairwise.nil

/-- On versions where `Greater` is transitive, every run commits in increasing order. -/
theorem commits_pairwise_of_trans (crypto : Crypto) (key : Bytes) (slots : Slot → SlotDir)
    {V : Set String} (htrans : GreaterTransOn V) (sched : Schedule)
    (hoff : ∀ c ∈ sched, OffersOnly V c.1) :
    (committedVersions ((ota crypto key).run sched (factory slots)).1).Pairwise
      fun u v => compareVersions v u = .gt := by
  have hadm : ∀ s ∈ ((ota crypto key).run sched (factory slots)).1,
      FailsOnly (fun _ => True) s ∧ OffersOnly V s.call := by
    intro s hs
    obtain ⟨fs, hfs⟩ := System.call_mem_of_mem_run _ hs
    exact ⟨failsOnly_true s, hoff _ hfs⟩
  have hend := ((lifeInvariant crypto key htrans).along_run (ota_follows crypto key _) sched
    (lifeInv_factory V slots) hadm).2.increasing
  have hall : (journaledVersions ((ota crypto key).run sched (factory slots)).1).Pairwise
      fun u v => compareVersions v u = .gt := by
    have hfold := foldl_commitsAfter ((ota crypto key).run sched (factory slots)).1 []
    rw [List.nil_append] at hfold
    rw [← hfold]
    exact hend
  exact hall.sublist (acknowledged_sublist sched _)

/-! ## §3 Transitivity is needed. -/

theorem signed_hash : Text.hexEncode (tabulated.sha256 []) =
    Text.toLowercase (signArtifact tabulated releaseSign []).1.toList := by
  decide +kernel

theorem signed_accepted :
    checkSignature tabulated releaseKey [] (signedManifest tabulated releaseSign [] "") = .ok true := by
  decide +kernel

/-- The signature check reads nothing of the manifest but the signature. -/
theorem checkSignature_congr {crypto : Crypto} {key bytes : Bytes} {manifest manifest' : OtaManifest}
    (h : manifest.signatureHex = manifest'.signatureHex) :
    checkSignature crypto key bytes manifest = checkSignature crypto key bytes manifest' := by
  unfold checkSignature
  rw [h]

/-- A signed update to a version above the watermark goes through. -/
theorem fullUpdate_continues {m : OtaManager} {v : String} (d : Disk) (rest : Schedule)
    (hkey : m.verifyingKey = releaseKey) (hc : m.candidateVersion = none)
    (hgt : ∀ w, m.highestCommittedVersion = some w → compareVersions v w = .gt) :
    ∃ d', Continues tabulated releaseKey [v] (fullUpdate [] v ++ rest) ⟨some m, d⟩
      rest ⟨some (m.updated v), d'⟩ := by
  have hsize : ([] : Bytes).length % 2 ^ 64 ≤
      ((signedManifest tabulated releaseSign [] v).sizeBytes + 1024 * 1024).toNat :=
    Nat.zero_le _
  have hsig : checkSignature tabulated m.verifyingKey []
      (signedManifest tabulated releaseSign [] v) = .ok true := by
    rw [hkey, ← signed_accepted]
    exact checkSignature_congr rfl
  exact update_commits d rest (startGate_of_no_candidate hc hgt) hsize signed_hash hsig

/-- The first `open` of a device and then updates to the given versions. -/
def updatesTo : List String → Schedule
  | [] => []
  | v :: vs => fullUpdate [] v ++ updatesTo vs

/-- Updates each of which is above its predecessor are all acknowledged. -/
theorem updates_acknowledged {m : OtaManager} {d : Disk} (hkey : m.verifyingKey = releaseKey)
    (hc : m.candidateVersion = none) (vs : List String)
    (hvs : (m.highestCommittedVersion.toList ++ vs).IsChain fun u v => compareVersions v u = .gt) :
    committedVersions ((ota tabulated releaseKey).run (updatesTo vs) ⟨some m, d⟩).1 = vs := by
  induction vs generalizing m d with
  | nil => rfl
  | cons v vs ih =>
      have hgt : ∀ w, m.highestCommittedVersion = some w → compareVersions v w = .gt := by
        intro w hw
        rw [hw] at hvs
        exact (List.isChain_cons_cons.mp hvs).1
      obtain ⟨d', _, hcommits⟩ := fullUpdate_continues d (updatesTo vs) hkey hc hgt
      have hhigh : (m.updated v).highestCommittedVersion = some v := raiseWatermark_of_gt hgt
      have hrest : committedVersions
          ((ota tabulated releaseKey).run (updatesTo vs) ⟨some (m.updated v), d'⟩).1 = vs := by
        refine ih hkey rfl ?_
        rw [hhigh]
        cases hm : m.highestCommittedVersion with
        | none =>
            rw [hm] at hvs
            exact hvs
        | some w =>
            rw [hm] at hvs
            exact (List.isChain_cons_cons.mp hvs).2
      rw [updatesTo, hcommits, hrest]
      rfl

/-- The life of a device that opens and then takes the given updates. -/
def lifeOf (vs : List String) : List OtaStep :=
  ((ota tabulated releaseKey).run ((.open, []) :: updatesTo vs) (factory emptySlots)).1

theorem lifeOf_commits {vs : List String}
    (hvs : vs.IsChain fun u v => compareVersions v u = .gt) :
    committedVersions (lifeOf vs) = vs := by
  have hopen : (callProg tabulated releaseKey .open ⟨none, ⟨none, none, emptySlots⟩⟩).quiet device
      ⟨none, none, emptySlots⟩ = ((.ok .unit, some (OtaManager.initial releaseKey)),
        Disk.journaling ⟨none, none, emptySlots⟩ (OtaManager.initial releaseKey).record) := rfl
  have hcont := (run_quiet_call (updatesTo vs) hopen).2
  unfold lifeOf factory
  rw [hcont]
  exact updates_acknowledged rfl rfl vs hvs

theorem updatesTo_offers {V : Set String} {vs : List String} (hvs : ∀ v ∈ vs, v ∈ V) :
    ∀ c ∈ updatesTo vs, OffersOnly V c.1 := by
  induction vs with
  | nil => exact nofun
  | cons v vs ih =>
      intro c hc manifest hm
      rcases List.mem_append.mp hc with hc | hc
      · have hv : manifest.version = v := by
          simp only [fullUpdate, updateCalls, List.mem_cons, List.not_mem_nil, or_false] at hc
          rcases hc with rfl | rfl | rfl | rfl | rfl | rfl <;> cases hm
          rfl
        rw [hv]
        exact hvs v List.mem_cons_self
      · exact ih (fun u hu => hvs u (List.mem_cons_of_mem _ hu)) c hc manifest hm

/-- **Rollback protection over a device's life is exactly transitivity.** For a set of versions:
every run (any order of calls, crashes and failed writes anywhere) whose `start_download` calls are
offered only versions of the set acknowledges pairwise increasing versions, if and only if `Greater`
is transitive on the set. -/
theorem commits_pairwise_greater_iff (V : Set String) :
    (∀ (crypto : Crypto) (key : Bytes) (slots : Slot → SlotDir) (sched : Schedule),
      (∀ c ∈ sched, OffersOnly V c.1) →
      (committedVersions ((ota crypto key).run sched (factory slots)).1).Pairwise
        fun u v => compareVersions v u = .gt) ↔ GreaterTransOn V := by
  constructor
  · intro hruns u hu v hv w hw huv hvw
    have hoff : ∀ c ∈ (Call.open, []) :: updatesTo [w, v, u], OffersOnly V c.1 := by
      intro c hc
      rcases List.mem_cons.mp hc with rfl | hc
      · exact fun _ => nofun
      · refine updatesTo_offers ?_ c hc
        simp only [List.mem_cons, List.not_mem_nil, or_false]
        rintro x (rfl | rfl | rfl) <;> assumption
    have hpair := hruns tabulated releaseKey emptySlots _ hoff
    have hcommits : committedVersions (lifeOf [w, v, u]) = [w, v, u] :=
      lifeOf_commits (by simp [hvw, huv])
    rw [lifeOf] at hcommits
    rw [hcommits] at hpair
    exact (List.pairwise_cons.mp hpair).1 u (by simp)
  · intro htrans crypto key slots sched hoff
    exact commits_pairwise_of_trans crypto key slots htrans sched hoff

/-- A device that takes `10`, then `1a`, then `9`: each is `Greater` than the one before, and the
last one is below the first. -/
theorem commits_not_pairwise_greater :
    ¬ (committedVersions (lifeOf ["10", "1a", "9"])).Pairwise
      fun u v => compareVersions v u = .gt := by
  have hchain : ["10", "1a", "9"].IsChain fun u v => compareVersions v u = .gt := by
    refine .cons_cons ?_ (.cons_cons ?_ (.singleton _))
    · decide
    · decide
  rw [lifeOf_commits hchain]
  decide

/-- Versions of one shape are safe: position by position all of them have a number, or none has. -/
theorem greater_trans_of_conforms (shape : Nat → Bool) :
    GreaterTransOn { v | Conforms shape v } := by
  intro u hu v hv w hw huv hvw
  exact compareVersions_gt_trans hu hv hw huv hvw

end Edgewarden.Ota
