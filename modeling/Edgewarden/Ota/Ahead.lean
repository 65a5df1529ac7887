/-
# Edgewarden.Ota.Ahead — a manager that is ahead of its journal.

Every method assigns the fields first and calls `persist` afterwards. When the journal write fails, `?`
returns the error and the assignment stays: the manager is in a state that was never journaled, and goes
on from there. `memory_journaled_iff` says exactly when this happens in a run: whenever a write or a rename
of the journal fails, in any call but `open` (whose manager is dropped) and a `recover` in
`HealthChecking` (which writes the record that is already there).

The methods are walked once more, this time with the failures of `persist` told apart from all other ends
(`Prog.Aborts`): such a failure is the last thing a call does.
-/
import Edgewarden.Ota.Commit

namespace Edgewarden.Ota

open Edgewarden.FaultIo Edgewarden.Text

/-! ## §1 Lost journal writes. -/

/-- The requests of `persist` whose failure it reports. -/
def Req.writesJournal : Req → Bool
  | .writeTmp _ | .renameJournal => true
  | _ => false

/-- A failed journal write of this call costs nothing: `open` gives up its manager, and `recover` in
`HealthChecking` rewrites the record that is in the journal. -/
def Spared (c : Call) (w : OtaWorld) : Prop :=
  c = .open ∨ (c = .recover ∧ ∃ a, w.mem = some a ∧ a.state = .healthChecking)

/-- A journal write that fails, in a call that has already made the assignment. -/
def LosesWrite (s : OtaStep) : Prop :=
  s.event.Fatal (fun q => q.writesJournal = true) ∧ ¬ Spared s.call s.entry

/-! ## §2 The methods. -/

section Methods

variable {α : Type} {c : Call} {w : OtaWorld} {crypto : Crypto} {a m : OtaManager} {d : Disk}

/-- A method that ends with the manager in the journal, unless a journal write fails: then it returns at
once, with the manager in the journal only if the call is spared. -/
abbrev Settles (c : Call) (w : OtaWorld) (x : OtaM α) (m : OtaManager) (d : Disk) : Prop :=
  MethodAborts device (fun q => q.writesJournal = true) x (fun d' r => Journaled r.2 d')
    (fun d' r => Journaled r.2 d' ↔ Spared c w) m d

theorem aborts_persist {E X : Disk → Except OtaError Unit × OtaManager → Prop}
    (hok : ∀ d', Journaled m d' → d'.slots = d.slots → E d' (.ok (), m))
    (hlost : ∀ d', d'.journal = d.journal → X d' (.error .io, m)) :
    MethodAborts device (fun q => q.writesJournal = true) persist E X m d := by
  have hdir : ∀ d', Journaled m d' → d'.slots = d.slots →
      MethodAborts device (fun q => q.writesJournal = true) (do let _ ← request .syncDir) E X m d' := by
    intro d' hj hs
    exact method_aborts_bind (method_aborts_request nofun (hok d' hj hs) fun _ => hok d' hj hs)
  have hren : ∀ d', d'.journal = d.journal → d'.slots = d.slots → d'.tmp = some (.whole m.record) →
      MethodAborts device (fun q => q.writesJournal = true)
        (do tryRequest .renameJournal; let _ ← request .syncDir) E X m d' := by
    intro d' hj hs ht
    refine method_aborts_bind (method_aborts_requestOr ?_ (fun h => absurd rfl h) ?_)
    · exact hdir _ (after_rename ht) ((after_slots (f := .ok) rfl).trans hs)
    · intro _ _
      exact ⟨_, rfl, hlost d' hj⟩
  refine method_aborts_get (method_aborts_bind (method_aborts_requestOr ?_ (fun h => absurd rfl h) ?_))
  · exact method_aborts_bind (method_aborts_request nofun (hren _ rfl rfl rfl) fun _ => hren _ rfl rfl rfl)
  · intro _ t
    cases t <;> exact ⟨_, rfl, hlost _ rfl⟩

theorem aborts_setState {E X : Disk → Except OtaError Unit × OtaManager → Prop} {s : OtaState}
    (hok : ∀ d', Journaled { m with state := s } d' → d'.slots = d.slots →
      E d' (.ok (), { m with state := s }))
    (hlost : ∀ d', d'.journal = d.journal → X d' (.error .io, { m with state := s })) :
    MethodAborts device (fun q => q.writesJournal = true) (setState s) E X m d :=
  method_aborts_bind (x := modify _) (aborts_persist hok hlost)

/-- The journal still holds the old record. -/
theorem ahead_of {b : OtaManager} {d' : Disk} (ha : Journaled a d) (hne : a.record ≠ b.record)
    (hc : ¬ Spared c w) (hj : d'.journal = d.journal) : Journaled b d' ↔ Spared c w := by
  refine ⟨?_, fun h => absurd h hc⟩
  intro hb
  have hsame : some (Contents.whole a.record) = some (.whole b.record) := (hj.trans ha).symm.trans hb
  exact absurd (Contents.whole.inj (Option.some.inj hsame)) hne

theorem record_ne_of_state {b : OtaManager} (h : a.state ≠ b.state) : a.record ≠ b.record :=
  fun he => h (congrArg PersistedOta.state he)

/-- An admitted start changes the record: the state or, if that is `Downloading` already, the
candidate. -/
theorem begun_record_ne {v : String} (h : a.Admits v) : a.record ≠ (a.begun v).record := by
  intro he
  have hstate : a.state = .downloading := congrArg PersistedOta.state he
  have hversion : a.candidateVersion = some v := congrArg PersistedOta.candidateVersion he
  rcases h.1 with hnone | hrest
  · rw [hnone] at hversion
    cases hversion
  · rw [hstate] at hrest
    cases hrest

/-- One `set_state`, after assignments that make `b` of `a`, and nothing after it. -/
theorem settles_setState {s : OtaState} (ha : Journaled a d) (hc : ¬ Spared c w)
    (hne : a.record ≠ { m with state := s }.record) : Settles c w (setState s) m d :=
  aborts_setState (fun _ hj _ => hj) fun _ hj => ahead_of ha hne hc hj

/-- ... with the rest of the method after it. -/
theorem settles_setState_then {s : OtaState} {f : Unit → OtaM α} (ha : Journaled a d) (hc : ¬ Spared c w)
    (hne : a.record ≠ { m with state := s }.record)
    (hrest : ∀ d', Journaled { m with state := s } d' → Settles c w (f ()) { m with state := s } d') :
    Settles c w (setState s >>= f) m d :=
  method_aborts_bind (aborts_setState (fun d' hj _ => hrest d' hj)
    fun _ hj => ⟨_, rfl, ahead_of ha hne hc hj⟩)

/-- A staging write, which leaves the journal alone whatever comes of it. -/
theorem settles_slotRequest {q : Req} {f : Unit → OtaM α} (hq : q.writesJournal = false)
    (hslot : q ≠ .renameJournal) (ha : Journaled m d)
    (hrest : ∀ d', Journaled m d' → Settles c w (f ()) m d') : Settles c w (tryRequest q >>= f) m d := by
  have hkeep : ∀ fault, Journaled m (device.after q d fault) := fun _ =>
    (after_journal (.inl hslot)).trans ha
  refine method_aborts_bind (method_aborts_requestOr (hrest _ (hkeep .ok)) ?_ ?_)
  · intro _ t
    exact hkeep (.fail t)
  · intro h
    rw [hq] at h
    cases h

theorem startDownload_settles {manifest : OtaManifest} (ha : Journaled a d) (hc : ¬ Spared c w) :
    Settles c w (startDownload manifest) a d := by
  refine method_aborts_get ?_
  cases hg : a.startGate manifest with
  | error e => exact ha
  | ok go =>
      cases go with
      | false => exact ha
      | true =>
          exact method_aborts_bind (x := modify _) (settles_setState_then ha hc
            (begun_record_ne (startGate_ok_true hg)) fun _ hj => hj)

theorem ingestChunk_settles {chunk : Bytes} {manifest : OtaManifest} (ha : Journaled a d) :
    Settles c w (ingestChunk chunk manifest) a d := by
  refine method_aborts_get ?_
  show Settles c w (if a.state ≠ .downloading then _ else _) a d
  split
  · exact ha
  · show Settles c w (if chunk.length % 2 ^ 64 > _ then _ else _) a d
    split
    · exact ha
    · exact ha

theorem verify_settles {manifest : OtaManifest} (ha : Journaled a d) (hc : ¬ Spared c w) :
    Settles c w (verify crypto manifest) a d := by
  refine method_aborts_get ?_
  show Settles c w (if a.state ≠ .downloading then _ else _) a d
  by_cases hs : a.state = .downloading
  swap
  · rw [if_pos hs]
    exact ha
  rw [if_neg (not_not.mpr hs)]
  refine settles_setState_then ha hc (record_ne_of_state (by simp [hs])) ?_
  intro d' hj
  -- the rejecting tail
  have hreject : ∀ (why : String) (e : OtaError), Settles c w
      (do
        modify fun m => { m with lastError := some why }
        setState .failed
        throw e : OtaM Unit) { a with state := .verifying } d' := by
    intro why e
    refine method_aborts_bind (x := modify _) (settles_setState_then hj hc (record_ne_of_state ?_) ?_)
    · exact nofun
    · exact fun _ hj' => hj'
  show Settles c w (if hexEncode (crypto.sha256 a.buffered) ≠ _ then _ else _) _ d'
  split
  · exact hreject _ _
  · cases hsig : checkSignature crypto a.verifyingKey a.buffered manifest with
    | error e => exact hj
    | ok accepted =>
        cases accepted with
        | false => exact hreject _ _
        | true =>
            refine settles_slotRequest rfl nofun hj fun _ hj₁ => ?_
            refine settles_slotRequest rfl nofun hj₁ fun _ hj₂ => ?_
            refine settles_slotRequest rfl nofun hj₂ fun _ hj₃ => ?_
            exact settles_setState hj₃ hc (record_ne_of_state nofun)

theorem markRebootPending_settles (ha : Journaled a d) (hc : ¬ Spared c w) :
    Settles c w markRebootPending a d := by
  refine method_aborts_get ?_
  show Settles c w (if a.state ≠ .staged then _ else _) a d
  by_cases hs : a.state = .staged
  · rw [if_neg (not_not.mpr hs)]
    exact settles_setState ha hc (record_ne_of_state (by simp [hs]))
  · rw [if_pos hs]
    exact ha

theorem simulateReboot_settles (ha : Journaled a d) (hc : ¬ Spared c w) :
    Settles c w simulateReboot a d := by
  refine method_aborts_get ?_
  show Settles c w (if a.state ≠ .rebootPending then _ else _) a d
  by_cases hs : a.state = .rebootPending
  · rw [if_neg (not_not.mpr hs)]
    refine settles_setState_then ha hc (record_ne_of_state (by simp [hs])) ?_
    intro _ hj
    exact settles_setState hj hc (record_ne_of_state nofun)
  · rw [if_pos hs]
    exact ha

theorem rollback_settles (ha : Journaled a d) (hc : ¬ Spared c w) : Settles c w rollback a d := by
  refine method_aborts_get ?_
  show Settles c w (if ¬ (a.state = .rollbackPending ∨ a.state = .healthChecking ∨ a.state = .failed)
    then _ else _) a d
  by_cases hs : a.state = .rollbackPending ∨ a.state = .healthChecking ∨ a.state = .failed
  · rw [if_neg (not_not.mpr hs)]
    refine method_aborts_bind (x := modify _) (settles_setState ha hc (record_ne_of_state ?_))
    rcases hs with hs | hs | hs <;> simp [hs]
  · rw [if_pos hs]
    exact ha

theorem healthCheck_settles {healthy : Bool} {detail : String} (ha : Journaled a d) (hc : ¬ Spared c w) :
    Settles c w (healthCheck healthy detail) a d := by
  refine method_aborts_get ?_
  show Settles c w (if a.state ≠ .healthChecking then _ else _) a d
  by_cases hs : a.state = .healthChecking
  swap
  · rw [if_pos hs]
    exact ha
  rw [if_neg (not_not.mpr hs)]
  cases healthy with
  | true =>
      exact method_aborts_bind (x := modify _) (settles_setState ha hc (record_ne_of_state (by simp [hs])))
  | false =>
      refine method_aborts_bind (x := modify _)
        (settles_setState_then ha hc (record_ne_of_state (by simp [hs])) ?_)
      intro _ hj
      exact rollback_settles hj hc

theorem recover_settles (ha : Journaled a d) (hw : w.mem = some a) : Settles .recover w recover a d := by
  -- in `HealthChecking` the record is the one in the journal
  have hcheck : a.state = .healthChecking → Settles .recover w
      (do setState .healthChecking; return (← get).state) a d := by
    intro hs
    have hsame : { a with state := .healthChecking } = a := by
      rw [← hs]
    refine method_aborts_bind (aborts_setState (fun _ hj _ => hj) ?_)
    intro d' hj
    refine ⟨_, rfl, fun _ => .inr ⟨rfl, a, hw, hs⟩, fun _ => ?_⟩
    rw [hsame]
    exact hj.trans ha
  have hspared : a.state ≠ .healthChecking → ¬ Spared .recover w := by
    rintro hs (hopen | ⟨_, a', ha', hs'⟩)
    · cases hopen
    · rw [hw] at ha'
      cases ha'
      exact hs hs'
  obtain ⟨s, _, _, _, _, _, _, _⟩ := a
  cases s with
  | healthChecking => exact method_aborts_get (hcheck rfl)
  | downloading =>
      exact method_aborts_get (method_aborts_bind (x := modify _)
        (settles_setState_then ha (hspared nofun) (record_ne_of_state nofun) fun _ hj => hj))
  | verifying =>
      exact method_aborts_get (method_aborts_bind (x := modify _)
        (settles_setState_then ha (hspared nofun) (record_ne_of_state nofun) fun _ hj => hj))
  | rebootPending =>
      exact method_aborts_get
        (settles_setState_then ha (hspared nofun) (record_ne_of_state nofun) fun _ hj => hj)
  | bootingCandidate =>
      exact method_aborts_get
        (settles_setState_then ha (hspared nofun) (record_ne_of_state nofun) fun _ hj => hj)
  | _ => exact method_aborts_get ha

end Methods

/-! ## §3 Calls and runs. -/

section Runs

variable {crypto : Crypto} {key : Bytes} {c : Call} {w : OtaWorld}

/-- A call that leaves memory and journal in step, unless a journal write fails in it. -/
abbrev CallSettles (c : Call) (w : OtaWorld)
    (p : Prog (Option OtaManager) Req (Except OtaError Reply × Option OtaManager)) : Prop :=
  p.Aborts device (fun q => q.writesJournal = true) (fun d' r => Synced ⟨r.2, d'⟩)
    (fun d' r => Synced ⟨r.2, d'⟩ ↔ Spared c w) w.disk

theorem synced_some {a : OtaManager} {d : Disk} : Synced ⟨some a, d⟩ ↔ Journaled a d := by
  refine ⟨fun h => h a rfl, ?_⟩
  rintro h _ ⟨⟩
  exact h

theorem onManager_settles {α : Type} {x : OtaM α} {reply : α → Reply} (hw : Synced w)
    (h : ∀ a, w.mem = some a → Journaled a w.disk → Settles c w x a w.disk) :
    CallSettles c w (onManager x reply w) := by
  unfold onManager
  cases hm : w.mem with
  | none => exact synced_none _
  | some a =>
      refine Prog.aborts_bind (Prog.Aborts.mono (h a hm (hw a hm)) ?_ ?_)
      · intro d r hj
        exact synced_some.mpr hj
      · intro d r hj
        exact ⟨_, rfl, synced_some.trans hj⟩

theorem open_settles : CallSettles .open w ((ota crypto key).prog .open w) := by
  have hspared : Spared .open w := .inl rfl
  refine Prog.aborts_bind ⟨?_, ?_, nofun⟩
  swap
  · intro _ _
    exact synced_none _
  cases hj : w.disk.journal with
  | some file =>
      refine ⟨?_, ?_, nofun⟩
      · cases file with
        | garbled => exact synced_none _
        | whole p => exact synced_some.mpr hj
      · intro _ _
        exact synced_none _
  | none =>
      refine Prog.aborts_bind (aborts_persist ?_ ?_)
      · intro d' hj' _
        exact synced_some.mpr hj'
      · intro d' _
        exact ⟨_, rfl, _, rfl, fun _ => hspared, fun _ => synced_none _⟩

/-- **Every call**, from a manager that is in the journal. -/
theorem call_settles (crypto : Crypto) (key : Bytes) (c : Call) (hw : Synced w) :
    CallSettles c w ((ota crypto key).prog c w) := by
  have hcalls : c ≠ .open → c ≠ .recover → ¬ Spared c w := by
    rintro hopen hrecover (h | ⟨h, _⟩)
    · exact hopen h
    · exact hrecover h
  cases c with
  | «open» => exact open_settles
  | startDownload manifest =>
      exact onManager_settles hw fun a _ ha => startDownload_settles ha (hcalls nofun nofun)
  | ingestChunk chunk manifest => exact onManager_settles hw fun a _ ha => ingestChunk_settles ha
  | verify manifest =>
      exact onManager_settles hw fun a _ ha => verify_settles ha (hcalls nofun nofun)
  | markRebootPending =>
      exact onManager_settles hw fun a _ ha => markRebootPending_settles ha (hcalls nofun nofun)
  | simulateReboot =>
      exact onManager_settles hw fun a _ ha => simulateReboot_settles ha (hcalls nofun nofun)
  | healthCheck healthy detail =>
      exact onManager_settles hw fun a _ ha => healthCheck_settles ha (hcalls nofun nofun)
  | rollback =>
      exact onManager_settles hw fun a _ ha => rollback_settles ha (hcalls nofun nofun)
  | recover => exact onManager_settles hw fun a ha hj => recover_settles hj ha
  | kill => exact synced_none _

/-- One call: memory and journal are in step at its end exactly if no journal write was lost in it. -/
theorem call_synced_iff (crypto : Crypto) (key : Bytes) (c : Call) (fs : List (Fault Tear)) (hw : Synced w) :
    Synced (((ota crypto key).prog c w).exec device none w.mem fs w.disk).2 ↔
      ∀ e ∈ (((ota crypto key).prog c w).exec device none w.mem fs w.disk).1, ¬ LosesWrite ⟨c, w, e⟩ := by
  have hended := (call_settles crypto key c hw).outcome none w.mem fs
  generalize ((ota crypto key).prog c w).exec device none w.mem fs w.disk = r at hended ⊢
  obtain ⟨es, m', d'⟩ := r
  rcases hended with ⟨hdead, _, hcalm⟩ | ⟨b, _, ⟨hE, hcalm⟩ | ⟨hX, e, he, hfatal⟩⟩
  · refine iff_of_true ?_ fun e he hl => hcalm e he hl.1
    intro a ha
    cases hdead.symm.trans ha
  · exact iff_of_true hE fun e he hl => hcalm e he hl.1
  · refine hX.trans ⟨fun hs e' _ hl => hl.2 hs, fun hnone => ?_⟩
    by_contra hs
    exact hnone e he ⟨hfatal, hs⟩

/-- A call that returns does so with what it leaves; one that dies leaves no manager. -/
theorem call_returns_iff (crypto : Crypto) (key : Bytes) (c : Call) (fs : List (Fault Tear)) (hw : Synced w) :
    (∀ e ∈ (((ota crypto key).prog c w).exec device none w.mem fs w.disk).1, ∀ b, e.reply = some b →
        Synced (e.after device none)) ↔
      Synced (((ota crypto key).prog c w).exec device none w.mem fs w.disk).2 := by
  have hended := (call_settles crypto key c hw).outcome none w.mem fs
  have hafter := ((ota crypto key).prog c w).exec_ret_after device none w.mem fs w.disk
  refine ⟨?_, fun hsync e he b hb => by rw [hafter e he b hb]; exact hsync⟩
  intro hreturns
  rcases hended with ⟨hdead, _, _⟩ | ⟨b, ⟨e, he, hb⟩, _⟩
  · intro a ha
    cases hdead.symm.trans ha
  · rw [← hafter e he b hb]
    exact hreturns e he b hb

/-- Whenever a call returns, the manager's fields are the record in the journal. -/
def MemoryJournaled (steps : List OtaStep) : Prop :=
  ∀ s ∈ steps, ∀ b, s.event.reply = some b → Synced (s.event.after device none)

theorem run_journaled_iff (sched : Schedule) (hw : Synced w) :
    MemoryJournaled ((ota crypto key).run sched w).1 ↔
      ∀ s ∈ ((ota crypto key).run sched w).1, ¬ LosesWrite s := by
  induction sched generalizing w with
  | nil => simp [MemoryJournaled, System.run]
  | cons head rest ih =>
      obtain ⟨c, fs⟩ := head
      have hlost := call_synced_iff crypto key c fs hw
      have hreturns := call_returns_iff crypto key c fs hw
      unfold MemoryJournaled at ih ⊢
      simp only [System.run, List.forall_mem_append, List.forall_mem_map]
      by_cases hsync : Synced (((ota crypto key).prog c w).exec device none w.mem fs w.disk).2
      · exact and_congr (hreturns.trans hlost) (ih hsync)
      · -- the first call that loses a write is the first that returns out of step
        refine iff_of_false ?_ ?_
        · rintro ⟨hhead, _⟩
          exact hsync (hreturns.mp hhead)
        · rintro ⟨hhead, _⟩
          exact hsync (hlost.mpr hhead)

end Runs

/-- **Memory and journal.** For every run, with any pattern of failing, torn and cut requests: whenever a
call returns, with `Ok` or an error, the manager's state, slots, versions and last error are those the
journal decodes to, exactly if no call of the run loses a journal write. -/
theorem memory_journaled_iff (crypto : Crypto) (key : Bytes) (slots : Slot → SlotDir) (sched : Schedule) :
    MemoryJournaled ((ota crypto key).run sched (factory slots)).1 ↔
      ∀ s ∈ ((ota crypto key).run sched (factory slots)).1, ¬ LosesWrite s :=
  run_journaled_iff sched (synced_none _)

/-- `start_download` with a journal that cannot be written, and the same command again. -/
def lostStart : List OtaStep × OtaWorld :=
  (ota tabulated releaseKey).run
    [(.open, []),
      (.startDownload (signedManifest tabulated releaseSign [] "1.0.0"), [.fail .untouched]),
      (.startDownload (signedManifest tabulated releaseSign [] "1.0.0"), [])]
    (factory emptySlots)

/-- The first start returns an error and leaves the manager in `Downloading`; the second one takes that
for a duplicate and returns `Ok`, while the journal says `Idle`. -/
theorem unjournaled_start_acknowledged :
    ¬ MemoryJournaled lostStart.1 ∧
      lostStart.1.filterMap (fun s => s.event.reply) =
        [.ok .unit, .error .io, .ok (.started false)] ∧
      lostStart.2.mem.map (fun a => a.state) = some .downloading ∧
      lostStart.2.disk.journal = some (.whole (OtaManager.initial releaseKey).record) := by
  refine ⟨?_, by decide +kernel, by decide +kernel, by decide +kernel⟩
  intro hok
  -- the return of the first `start_download`
  have hlen : 7 < lostStart.1.length := by
    have h : lostStart.1.length = 9 := by decide +kernel
    omega
  have hat : lostStart.1[7]?.bind (fun s => (s.event.after device none).mem.map fun a =>
      (s.event.reply, a.state, (s.event.after device none).disk.journal)) =
      some (some (.error .io), .downloading, some (.whole (OtaManager.initial releaseKey).record)) := by
    decide +kernel
  rw [List.getElem?_eq_getElem hlen, Option.bind_some] at hat
  obtain ⟨a, hmem, hfields⟩ := Option.map_eq_some_iff.mp hat
  simp only [Prod.mk.injEq] at hfields
  obtain ⟨hreply, hstate, hjournal⟩ := hfields
  have hj := hok _ (List.getElem_mem hlen) _ hreply a hmem
  have hsame : a.state = .idle := by
    have h := Contents.whole.inj (Option.some.inj (hj.symm.trans hjournal))
    exact congrArg PersistedOta.state h
  rw [hstate] at hsame
  cases hsame

end Edgewarden.Ota
