/-
# Edgewarden.Ota.Durability — what a power loss cannot take back from the OTA journal.

`persist` syncs the temporary file before the rename and the directory after it. So a call that ends with a
`persist` has made its record durable when it returns `Ok`, and until then a power loss leaves what was under the
journal's name at some moment since the last such return.

* §1 `SyncsOn`: which calls have synced the directory when they return, by which answers.
* §2 `Recent` and its invariant, over the runs of `Ota.PowerLoss`.
* `acknowledged_survives_power_loss`: the journal that a power loss leaves can be read, and no call that was
  acknowledged is undone. `open` and `recover` may return `Ok` on a record that is not durable yet.
* `update_installs_after_power_loss`: nor does any power loss keep a device from its next update, although it may
  leave the slots without their files.
-/
import Edgewarden.Ota.Install
import Edgewarden.Ota.PowerLoss

namespace Edgewarden.Ota

open Edgewarden.FaultIo Edgewarden.Durable Edgewarden.Text

/-! ## §1 Calls that sync the journal. -/

section Syncs

variable {α β : Type}

/-- A method that has synced the directory when it returns `Ok` of a value with `P`. -/
def SyncsOn (P : α → Prop) (x : OtaM α) : Prop :=
  ∀ m prev st, MethodFollows storage syncsSucceed (fun _ _ _ _ => True) x
    (fun _ st' r => ∀ a, r.1 = .ok a → P a → st'.journal.pending = []) m prev st

variable {P : α → Prop}

theorem syncsOn_throw (e : OtaError) : SyncsOn P (throw e) := fun _ _ _ _ h => by cases h

theorem syncsOn_pure {a : α} (h : ¬ P a) : SyncsOn P (pure a) := by
  intro m prev st a' ha' hP
  cases ha'
  exact absurd hP h

/-- What a method does before does not matter. -/
theorem syncsOn_bind {x : OtaM β} {f : β → OtaM α} (hf : ∀ b, SyncsOn P (f b)) : SyncsOn P (x >>= f) := by
  intro m prev st
  refine method_bind ((Prog.follows_true _ _ _).mono ?_)
  rintro p st' ⟨r, m'⟩ _
  cases r with
  | ok b => exact hf b m' p st'
  | error e =>
      intro a ha
      cases ha

theorem persist_syncsOn {P : Unit → Prop} : SyncsOn P persist := by
  intro m prev st
  have hcut : ∀ (st' : Storage) a, (.error .io : Except OtaError Unit) = .ok a → P a →
      st'.journal.pending = [] := by
    intro st' a h
    cases h
  refine method_get ?_
  refine method_bind (method_requestOr trivial ?_ fun _ _ => hcut _)
  refine method_bind (method_request trivial ?_ fun h => absurd rfl h.1)
  refine method_bind (method_requestOr trivial ?_ fun _ _ => hcut _)
  refine method_bind (method_request trivial ?_ fun h => absurd rfl h.2)
  exact fun _ _ _ => rfl

theorem setState_syncsOn {P : Unit → Prop} (s : OtaState) : SyncsOn P (setState s) :=
  syncsOn_bind fun _ => persist_syncsOn

/-- A method that begins with a check of the state. -/
theorem syncsOn_guard {c : OtaManager → Prop} [DecidablePred c] {e : OtaManager → OtaError}
    {f : OtaManager → OtaM α} (hf : ∀ m, SyncsOn P (f m)) :
    SyncsOn P (do let m ← get; if c m then throw (e m) else f m) := by
  refine syncsOn_bind fun m => ?_
  split
  · exact syncsOn_throw _
  · exact hf m

theorem startDownload_syncsOn (manifest : OtaManifest) :
    SyncsOn (fun fresh => fresh = true) (startDownload manifest) := by
  refine syncsOn_bind fun m => ?_
  cases m.startGate manifest with
  | error e => exact syncsOn_throw e
  | ok go =>
      cases go with
      | false => exact syncsOn_pure (by simp)
      | true =>
          refine syncsOn_bind fun _ => ?_
          intro m prev st
          refine method_bind ((setState_syncsOn (P := fun _ => True) _ m prev st).mono ?_)
          rintro p st' ⟨r, m'⟩ hr
          cases r with
          | ok a => exact fun _ _ _ => hr a rfl trivial
          | error e =>
              intro a ha
              cases ha

theorem verify_syncsOn {P : Unit → Prop} (crypto : Crypto) (manifest : OtaManifest) :
    SyncsOn P (verify crypto manifest) := by
  refine syncsOn_guard fun m => syncsOn_bind fun _ => ?_
  have hreject : ∀ (why : String) (e : OtaError), SyncsOn P
      (do
        modify fun m => { m with lastError := some why }
        setState .failed
        throw e) := fun _ e => syncsOn_bind fun _ => syncsOn_bind fun _ => syncsOn_throw e
  show SyncsOn P (if hexEncode (crypto.sha256 m.buffered) ≠ _ then _ else _)
  split
  · exact hreject _ _
  · cases checkSignature crypto m.verifyingKey m.buffered manifest with
    | error e => exact syncsOn_throw e
    | ok accepted =>
        cases accepted with
        | false => exact hreject _ _
        | true =>
            exact syncsOn_bind fun _ => syncsOn_bind fun _ => syncsOn_bind fun _ => setState_syncsOn _

theorem markRebootPending_syncsOn {P : Unit → Prop} : SyncsOn P markRebootPending :=
  syncsOn_guard fun _ => setState_syncsOn _

theorem simulateReboot_syncsOn {P : Unit → Prop} : SyncsOn P simulateReboot :=
  syncsOn_guard fun _ => syncsOn_bind fun _ => setState_syncsOn _

theorem rollback_syncsOn {P : Unit → Prop} : SyncsOn P rollback :=
  syncsOn_guard fun _ => syncsOn_bind fun _ => setState_syncsOn _

theorem healthCheck_syncsOn {P : Unit → Prop} (healthy : Bool) (detail : String) :
    SyncsOn P (healthCheck healthy detail) := by
  refine syncsOn_guard fun m => ?_
  cases healthy with
  | true => exact syncsOn_bind fun _ => setState_syncsOn _
  | false => exact syncsOn_bind fun _ => syncsOn_bind fun _ => rollback_syncsOn

end Syncs

/-- The answers that say that a record was persisted. `open` and `recover` persist for some journals only, and
their answers do not say which. -/
def Call.syncs : Call → Reply → Bool
  | .startDownload _, .started fresh => fresh
  | .verify _, _ | .markRebootPending, _ | .simulateReboot, _ | .healthCheck _ _, _ | .rollback, _ => true
  | _, _ => false

/-- A call returns with such an answer. -/
def acknowledges (s : PoweredStep) : Bool :=
  match s.event with
  | .ret _ _ (.ok reply) _ => s.call.syncs reply
  | _ => false

/-- A call that returns with such an answer leaves the journal's entry durable. -/
abbrev SyncedReturn (c : Call) (_ : PoweredWorld) (_ : Option OtaManager) (st : Storage)
    (r : Except OtaError Reply × Option OtaManager) : Prop :=
  ∀ reply, r.1 = .ok reply → c.syncs reply = true → st.journal.pending = []

section Returns

variable {α : Type} {c : Call}

theorem onManager_synced {P : α → Prop} {x : OtaM α} {reply : α → Reply} (hx : SyncsOn P x)
    (hP : ∀ a, c.syncs (reply a) = true → P a) (w : PoweredWorld) :
    (onManager x reply ⟨w.mem, w.disk.view⟩).Follows storage syncsSucceed (fun _ _ _ _ => True)
      (SyncedReturn c w) w.mem w.disk := by
  unfold onManager
  cases w.mem with
  | none =>
      intro r hr
      cases hr
  | some m =>
      refine Prog.follows_bind.mpr ((hx m (some m) w.disk).mono ?_)
      rintro p st ⟨r, m'⟩ hr answer hanswer hsyncs
      cases r with
      | ok a =>
          cases hanswer
          exact hr a rfl (hP a hsyncs)
      | error e => cases hanswer

/-- A call whose answers say nothing. -/
theorem unsynced_returns (crypto : Crypto) (key : Bytes) (hc : ∀ reply, c.syncs reply = false) (w : PoweredWorld) :
    ((powered crypto key).prog c w).Follows storage syncsSucceed (fun _ _ _ _ => True) (SyncedReturn c w)
      w.mem w.disk := by
  refine (Prog.follows_true _ _ _).mono ?_
  intro _ _ _ _ reply _ hsyncs
  rw [hc reply] at hsyncs
  cases hsyncs

theorem powered_synced (crypto : Crypto) (key : Bytes) (c : Call) (w : PoweredWorld) :
    ((powered crypto key).prog c w).Follows (powered crypto key).dev syncsSucceed (fun _ _ _ _ => True)
      (SyncedReturn c w) w.mem w.disk := by
  cases c with
  | startDownload manifest =>
      have hfresh : ∀ fresh, Call.syncs (.startDownload manifest) (.started fresh) = true → fresh = true :=
        fun _ h => h
      exact onManager_synced (startDownload_syncsOn manifest) hfresh w
  | verify manifest => exact onManager_synced (verify_syncsOn crypto manifest) (fun _ _ => trivial) w
  | markRebootPending => exact onManager_synced markRebootPending_syncsOn (fun _ _ => trivial) w
  | simulateReboot => exact onManager_synced simulateReboot_syncsOn (fun _ _ => trivial) w
  | healthCheck healthy detail => exact onManager_synced (healthCheck_syncsOn healthy detail) (fun _ _ => trivial) w
  | rollback => exact onManager_synced rollback_syncsOn (fun _ _ => trivial) w
  | «open» => exact unsynced_returns crypto key (fun _ => rfl) w
  | ingestChunk chunk manifest => exact unsynced_returns crypto key (fun _ => rfl) w
  | recover => exact unsynced_returns crypto key (fun _ => rfl) w
  | kill => exact unsynced_returns crypto key (fun _ => rfl) w

end Returns

/-! ## §2 What was under the name since. -/

/-- A journal that some moment of a run has left, with no acknowledged call since; or there is none yet. -/
def Recent (steps : List PoweredStep) (journal : Option (Contents PersistedOta)) : Prop :=
  (journal = none ∧ ∀ s ∈ steps, acknowledges s = false) ∨
    ∃ earlier s later, steps = earlier ++ s :: later ∧
      journal = (s.event.after storage none).disk.view.journal ∧ ∀ s' ∈ later, acknowledges s' = false

/-- Whatever may be under the name after a power loss is recent. -/
def Recalled (steps : List PoweredStep) (st : Storage) : Prop :=
  ∀ file ∈ st.journal.possible, Recent steps (file.map Cell.value)

section Since

variable {steps : List PoweredStep} {s : PoweredStep} {journal : Option (Contents PersistedOta)} {st : Storage}

theorem recent_now : Recent (steps ++ [s]) (s.event.after storage none).disk.view.journal :=
  .inr ⟨steps, s, [], rfl, rfl, fun _ h => by cases h⟩

theorem Recent.later (h : Recent steps journal) (hs : acknowledges s = false) : Recent (steps ++ [s]) journal := by
  have hmore : ∀ xs : List PoweredStep, (∀ x ∈ xs, acknowledges x = false) →
      ∀ x ∈ xs ++ [s], acknowledges x = false := by
    intro xs hxs x hx
    rcases List.mem_append.mp hx with hx | hx
    · exact hxs x hx
    · rw [List.mem_singleton.mp hx]
      exact hs
  rcases h with ⟨hnone, hall⟩ | ⟨earlier, x, later, rfl, hjournal, hall⟩
  · exact .inl ⟨hnone, hmore _ hall⟩
  · exact .inr ⟨earlier, x, later ++ [s], by simp, hjournal, hmore _ hall⟩

/-- A step that is itself acknowledged leaves nothing older. -/
theorem Recent.of_acknowledged (h : Recent (steps ++ [s]) journal) (hs : acknowledges s = true) :
    journal = (s.event.after storage none).disk.view.journal := by
  rcases h with ⟨_, hall⟩ | ⟨earlier, x, later, heq, hjournal, hall⟩
  · have hs' := hall s (by simp)
    rw [hs] at hs'
    cases hs'
  · rcases List.eq_nil_or_concat later with rfl | ⟨later', y, rfl⟩
    · obtain ⟨-, hx⟩ := List.append_inj' heq rfl
      cases hx
      exact hjournal
    · have heq' : steps ++ [s] = (earlier ++ x :: later') ++ [y] := by simpa using heq
      obtain ⟨-, hy⟩ := List.append_inj' heq' rfl
      cases hy
      have hs' := hall s (by simp)
      rw [hs] at hs'
      cases hs'

/-- **One request.** Only a rename puts a file under the name, and a process then sees it there. -/
theorem Recalled.after_request (h : Recalled steps st) (c : Call) (w₀ : PoweredWorld) (m m' : Option OtaManager)
    (q : Req) (f : Fault Tear) : Recalled (steps ++ [⟨c, w₀, .io m m' q f st⟩]) (storage.after q st f) := by
  have hlater : ∀ {j}, Recent steps j → Recent (steps ++ [⟨c, w₀, .io m m' q f st⟩]) j := fun hj => hj.later rfl
  intro file hfile
  by_cases hsame : (q ≠ .renameJournal ∧ q ≠ .syncDir) ∨ f ≠ .ok
  · rw [storage_after_journal hsame] at hfile
    exact hlater (h file hfile)
  · have hf : f = .ok := by
      by_contra hf
      exact hsame (.inr hf)
    subst hf
    by_cases hsync : q = .syncDir
    · subst hsync
      have hvalue : file = st.journal.value := List.mem_singleton.mp hfile
      rw [hvalue]
      exact hlater (h _ (Cell.value_possible _))
    · have hrename : q = .renameJournal := by
        by_contra hq
        exact hsame (.inl ⟨hq, hsync⟩)
      subst hrename
      have hnow : Recent (steps ++ [⟨c, w₀, .io m m' .renameJournal .ok st⟩]) st.renameJournal.view.journal :=
        recent_now
      have hafter : storage.after .renameJournal st .ok = st.renameJournal := rfl
      rw [hafter] at hfile
      by_cases hentry : st.tmp.entry.value = true
      · have hjournal : st.renameJournal.journal = st.journal.write (some st.tmp.contents) := by
          rw [Storage.renameJournal, if_pos hentry]
        rw [hjournal, Cell.mem_possible_write] at hfile
        rcases hfile with hfile | hfile
        · exact hlater (h file hfile)
        · have hview : st.renameJournal.view.journal = file.map Cell.value := by
            show st.renameJournal.journal.value.map Cell.value = _
            rw [hjournal, Cell.value_write, hfile]
          rw [← hview]
          exact hnow
      · rw [Storage.renameJournal, if_neg hentry] at hfile
        exact hlater (h file hfile)

theorem Recalled.after_return {c : Call} {w₀ : PoweredWorld} {m m' : Option OtaManager} {b : Except OtaError Reply}
    (h : Recalled steps st) (hret : SyncedReturn c w₀ m st (b, m')) :
    Recalled (steps ++ [⟨c, w₀, .ret m m' b st⟩]) st := by
  intro file hfile
  cases hack : acknowledges ⟨c, w₀, .ret m m' b st⟩ with
  | false => exact (h file hfile).later hack
  | true =>
      have hsynced : st.journal.pending = [] := by
        cases b with
        | ok reply => exact hret reply rfl hack
        | error e => cases hack
      rw [Cell.possible_of_settled hsynced, List.mem_singleton] at hfile
      rw [hfile]
      exact recent_now

end Since

def recalledInvariant (crypto : Crypto) (key : Bytes) :
    Invariant (powered crypto key) syncsSucceed (fun _ => True) (fun _ _ _ _ _ _ => True) SyncedReturn
      (List PoweredStep) where
  upd steps s := steps ++ [s]
  At steps w := Recalled steps w.disk
  In steps _ _ w := Recalled steps w.disk
  Good steps s := Recalled (steps ++ [s]) (s.event.after storage none).disk
  enter h := h
  live {steps c w₀ m st m' q f} inv _ _ hf _ := by
    have hafter := inv.after_request c w₀ m m' q f
    refine ⟨?_, hafter⟩
    cases f with
    | ok => exact hafter
    | fail t => exact hafter
    | die t => exact absurd rfl (hf t)
  die {steps c w₀ m st m' q t} inv _ _ := by
    have hafter := inv.after_request c w₀ m m' q (.die t)
    exact ⟨hafter, hafter⟩
  ret inv h _ := ⟨inv.after_return h, inv.after_return h⟩

/-! ## §3 Power loss. -/

section Loss

variable {crypto : Crypto} {key : Bytes} {slots : Slot → SlotDir} {sched : Schedule} {pre post : List PoweredStep}
  {s : PoweredStep}

theorem foldl_snoc {σ : Type} (xs ys : List σ) : ys.foldl (fun acc y => acc ++ [y]) xs = xs ++ ys := by
  induction ys generalizing xs with
  | nil => simp
  | cons y ys ih => simp [ih]

/-- What a power loss leaves was complete when it was renamed, and is recent. -/
theorem journal_recent
    (hsyncs : ∀ s ∈ ((powered crypto key).run sched ⟨none, .factory slots⟩).1, FailsOnly syncsSucceed s)
    (hrun : ((powered crypto key).run sched ⟨none, .factory slots⟩).1 = pre ++ s :: post) (l : Loss) :
    Recent (pre ++ [s]) ((s.event.after storage none).disk.lose l).journal := by
  have hadm : ∀ s ∈ ((powered crypto key).run sched ⟨none, .factory slots⟩).1, FailsOnly syncsSucceed s ∧ True :=
    fun s hs => ⟨hsyncs s hs, trivial⟩
  have hstart : (recalledInvariant crypto key).At [] ⟨none, .factory slots⟩ := by
    intro file hfile
    rw [List.mem_singleton.mp hfile]
    exact .inl ⟨rfl, fun _ h => by cases h⟩
  have hrecalled := ((recalledInvariant crypto key).along_run (powered_synced crypto key) sched hstart hadm).1
  have hshelf : (shelvedInvariant crypto key).At none ⟨none, .factory slots⟩ := shelved_factory slots
  have hshelved := ((shelvedInvariant crypto key).along_run (powered_follows crypto key) sched hshelf hadm).1
  rw [hrun] at hrecalled hshelved
  have hrecent : Recalled (pre ++ [s]) (s.event.after storage none).disk := by
    have hgood := hrecalled.at_split
    rwa [show (recalledInvariant crypto key).upd = fun steps s => steps ++ [s] from rfl, foldl_snoc] at hgood
  have hfiles := hshelved.at_split.2.files
  set st := (s.event.after storage none).disk
  have hpossible := Cell.lose_possible (l .journalEntry) st.journal
  have hlost : (st.lose l).journal = (st.journal.lose (l .journalEntry)).map Cell.value := by
    show (st.journal.lose (l .journalEntry)).map (Cell.lose (l .journalContents)) = _
    cases hfile : st.journal.lose (l .journalEntry) with
    | none => rfl
    | some file =>
        rw [hfile] at hpossible
        rw [Option.map_some, Option.map_some, Cell.lose_of_settled (hfiles file hpossible)]
  rw [hlost]
  exact hrecent _ hpossible

/-- A journal that a process has seen can be read. -/
theorem Recent.decodes {journal : Option (Contents PersistedOta)}
    (hrun : ((powered crypto key).run sched ⟨none, .factory slots⟩).1 = pre ++ s :: post)
    (h : Recent (pre ++ [s]) journal) : journal ≠ some .garbled := by
  rcases h with ⟨rfl, _⟩ | ⟨earlier, x, later, hsteps, rfl, _⟩
  · intro h
    cases h
  · have hseen : ((powered crypto key).run sched ⟨none, .factory slots⟩).1 = earlier ++ x :: (later ++ post) := by
      rw [hrun, List.append_cons, hsteps, List.append_assoc, List.cons_append]
    have hview := congrArg Prod.fst (powered_run_view crypto key slots sched)
    simp only [hseen, List.map_append, List.map_cons] at hview
    have hafter := (journal_decodes crypto key slots sched hview).2
    rwa [Step.map, Event.after_map storage_maps] at hafter

end Loss

/-- **An acknowledged call survives a power loss.** Take any run in which the syncs that are issued succeed (any
other request may fail, tear or be the last of its process) and cut the power after any of its steps, losing any
selection of the writes that are not durable. The journal that is left can be read; it is what a process would
have seen at some step of the run, and no call has been acknowledged since that step. So if the step is itself
the acknowledgement, of a commit for example, the loss takes nothing back. -/
theorem acknowledged_survives_power_loss (crypto : Crypto) (key : Bytes) (slots : Slot → SlotDir)
    (sched : Schedule)
    (hsyncs : ∀ s ∈ ((powered crypto key).run sched ⟨none, .factory slots⟩).1, FailsOnly syncsSucceed s)
    (pre post : List PoweredStep) (s : PoweredStep)
    (hrun : ((powered crypto key).run sched ⟨none, .factory slots⟩).1 = pre ++ s :: post) (l : Loss) :
    let st := (s.event.after storage none).disk
    (st.lose l).journal ≠ some .garbled ∧ Recent (pre ++ [s]) (st.lose l).journal ∧
      (acknowledges s = true → (st.lose l).journal = st.view.journal) := by
  have hrecent := journal_recent hsyncs hrun l
  exact ⟨hrecent.decodes hrun, hrecent, hrecent.of_acknowledged⟩

/-- A loss of everything that is not durable. -/
def allLost : Loss := fun _ _ => false

/-- The record of the update, committed. -/
def committedRecord : PersistedOta where
  state := .committed
  activeSlot := .B
  candidateSlot := none
  candidateVersion := none
  lastError := none
  highestCommittedVersion := some "1.0.0"

theorem poweredUpdate_last_lt : 42 < poweredUpdate.length := by
  rw [poweredUpdate_moment.1]
  omega

/-- The last step of the update is the return of `health_check`. -/
theorem poweredUpdate_last :
    poweredUpdate[42]?.map (fun s => (acknowledges s, (s.event.after storage none).disk.view.journal)) =
      some (true, some (.whole committedRecord)) := by
  decide +kernel

theorem acknowledged_survives_power_loss_committed :
    ∃ pre s post, poweredUpdate = pre ++ s :: post ∧
      ((s.event.after storage none).disk.lose allLost).journal = some (.whole committedRecord) := by
  have hlast := poweredUpdate_last
  rw [List.getElem?_eq_getElem poweredUpdate_last_lt, Option.map_some, Option.some.injEq, Prod.mk.injEq] at hlast
  have hsplit := split_at poweredUpdate_last_lt
  refine ⟨_, _, _, hsplit, ?_⟩
  rw [← hlast.2]
  exact (acknowledged_survives_power_loss tabulated releaseKey emptySlots _
    (System.run_nil_failsOnly _ (by simp [fullUpdate, updateCalls]) _) _ _ _ hsplit allLost).2.2 hlast.1

/-- **No power loss keeps a device from its next update.** As `update_installs`, from the disk that a power loss
leaves: for every manifest above the watermark that is left in the journal, every artifact that it signs, and any
chunks. -/
theorem update_installs_after_power_loss (crypto : Crypto) (key : Bytes) (slots : Slot → SlotDir)
    (sched : Schedule)
    (hsyncs : ∀ s ∈ ((powered crypto key).run sched ⟨none, .factory slots⟩).1, FailsOnly syncsSucceed s)
    (pre post : List PoweredStep) (s : PoweredStep)
    (hrun : ((powered crypto key).run sched ⟨none, .factory slots⟩).1 = pre ++ s :: post) (l : Loss) (d : Disk)
    (hd : d = (s.event.after storage none).disk.lose l) (manifest : OtaManifest) (chunks : List Bytes)
    (hnewer : ∀ v, d.committedPair.2 = some v → compareVersions manifest.version v = .gt)
    (hsize : ∀ chunk ∈ chunks, chunk.length % 2 ^ 64 ≤ (manifest.sizeBytes + 1024 * 1024).toNat)
    (hhash : hexEncode (crypto.sha256 chunks.flatten) = toLowercase manifest.artifactSha256Hex.toList)
    (hsig : checkSignature crypto key chunks.flatten manifest = .ok true) :
    ∃ state m d', state.interrupted = false ∧ Installed manifest chunks.flatten d.committedPair.1 d.slots m d' ∧
      Answers crypto key (resumeCalls ++ retreatCalls state ++ installCalls manifest chunks) ⟨none, d⟩
        ([.ok .unit, .ok (.state state)] ++ List.replicate (retreatCalls state).length (.ok .unit) ++
          installReplies chunks) ⟨some m, d'⟩ := by
  have hdecodes : d.journal ≠ some .garbled := by
    rw [hd]
    exact (journal_recent hsyncs hrun l).decodes hrun
  exact answers_next_update crypto key hdecodes hnewer hsize hhash hsig

/-- All that is left of a committed update is its journal, and a second update comes in two chunks. -/
theorem update_installs_after_power_loss_allLost :
    ∃ pre s post, poweredUpdate = pre ++ s :: post ∧
      ∃ state m d', state.interrupted = false ∧
        Installed (signedManifest tabulated releaseSign [1] "2.0.0") [1]
          ((s.event.after storage none).disk.lose allLost).committedPair.1
          ((s.event.after storage none).disk.lose allLost).slots m d' ∧
        Answers tabulated releaseKey
          (resumeCalls ++ retreatCalls state ++
            installCalls (signedManifest tabulated releaseSign [1] "2.0.0") [[], [1]])
          ⟨none, (s.event.after storage none).disk.lose allLost⟩
          ([.ok .unit, .ok (.state state)] ++ List.replicate (retreatCalls state).length (.ok .unit) ++
            installReplies [[], [1]]) ⟨some m, d'⟩ := by
  have hsplit := split_at poweredUpdate_last_lt
  have hpair : poweredUpdate[42]?.map (fun s => ((s.event.after storage none).disk.lose allLost).committedPair.2) =
      some (some "1.0.0") := by
    decide +kernel
  rw [List.getElem?_eq_getElem poweredUpdate_last_lt, Option.map_some, Option.some.injEq] at hpair
  refine ⟨_, _, _, hsplit, ?_⟩
  refine update_installs_after_power_loss tabulated releaseKey emptySlots _
    (System.run_nil_failsOnly _ (by simp [fullUpdate, updateCalls]) _) _ _ _ hsplit allLost _ rfl
    (signedManifest tabulated releaseSign [1] "2.0.0") [[], [1]] ?_ ?_ (by decide +kernel) (by decide +kernel)
  · intro v hv
    rw [hpair] at hv
    cases hv
    decide +kernel
  · decide +kernel

end Edgewarden.Ota
