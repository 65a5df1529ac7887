/-
# Edgewarden.Ota.Provenance — where a committed candidate comes from.

A commit is the end of a chain that is spread over calls and over lives of the process: a
`start_download`, a `verify` that staged, a reboot, a health check. The journal keeps only the last
link. `commits_are_proven` reads the whole chain off the history of the run: between the last journaled
`start_download` and the commit there is a `Staged` write of `verify`, and no failed verification, no
`RollbackPending` and no `RolledBack`.

The invariant has two halves: a journaled `Downloading` stands on a journaled start, and a journaled
bootable (or committed) state stands on the whole chain. `recover` re-enters `HealthChecking` from
bootable states only, and what is left of a candidate in `Idle` or `Failed` leads nowhere but to
`start_download`.
-/
import Edgewarden.Ota.Commit

namespace Edgewarden.Ota

open Edgewarden.FaultIo Edgewarden.Text

/-! ## §1 Moments of a history. -/

/-- The record that a completed `rename` puts under the journal's name. -/
def journaledBy (s : OtaStep) : Option PersistedOta :=
  match s.event with
  | .io _ _ .renameJournal .ok d =>
      match d.tmp with
      | some (.whole p) => some p
      | _ => none
  | _ => none

/-- The `Downloading` write of a `start_download`, completed. -/
def IsStart (s : OtaStep) : Prop :=
  ∃ manifest p, s.call = .startDownload manifest ∧ journaledBy s = some p ∧ p.state = .downloading

/-- The `Staged` write of a `verify`, completed. -/
def IsStaged (s : OtaStep) : Prop :=
  ∃ manifest p, s.call = .verify manifest ∧ journaledBy s = some p ∧ p.state = .staged

/-- A `verify` that records `Failed`, or that was let in and returns an error. -/
def VerifyFails (s : OtaStep) : Prop :=
  ∃ manifest, s.call = .verify manifest ∧
    ((∃ p, journaledBy s = some p ∧ p.state = .failed) ∨
      ∃ a e, s.entry.mem = some a ∧ a.state = .downloading ∧ s.event.reply = some (.error e))

/-- A negative health result, journaled. -/
def Negative (s : OtaStep) : Prop :=
  ∃ p, journaledBy s = some p ∧ (p.state = .rollbackPending ∨ p.state = .rolledBack)

/-- A moment that neither begins an update nor speaks against the candidate. -/
structure Harmless (s : OtaStep) : Prop where
  noStart : ¬ IsStart s
  noFailure : ¬ VerifyFails s
  notNegative : ¬ Negative s

/-- The history ends with a journaled start and harmless moments. -/
def Fresh (steps : List OtaStep) : Prop :=
  ∃ xs s₀ ys, steps = xs ++ s₀ :: ys ∧ IsStart s₀ ∧ ∀ s ∈ ys, Harmless s

/-- The history ends with a journaled start, a `Staged` write of `verify` and, around it, harmless
moments only. -/
def Proven (steps : List OtaStep) : Prop :=
  ∃ xs s₀ ys s₁ zs, steps = xs ++ s₀ :: (ys ++ s₁ :: zs) ∧ IsStart s₀ ∧ IsStaged s₁ ∧
    ∀ s ∈ ys ++ zs, Harmless s

/-- A commit: its journal write completes, or `health_check(true)` returns `Ok`. -/
def IsCommit (s : OtaStep) : Prop :=
  isCommitWrite s = true ∨
    ∃ detail r, s.call = .healthCheck true detail ∧ s.event.reply = some (.ok r)

section History

variable {steps : List OtaStep} {s : OtaStep}

theorem fresh_start (h : IsStart s) : Fresh (steps ++ [s]) :=
  ⟨steps, s, [], rfl, h, fun _ hs => absurd hs List.not_mem_nil⟩

theorem Fresh.snoc (h : Fresh steps) (hs : Harmless s) : Fresh (steps ++ [s]) := by
  obtain ⟨xs, s₀, ys, rfl, hstart, hys⟩ := h
  refine ⟨xs, s₀, ys ++ [s], by simp, hstart, ?_⟩
  intro s' hs'
  rw [List.mem_append, List.mem_singleton] at hs'
  rcases hs' with hs' | rfl
  · exact hys s' hs'
  · exact hs

theorem Fresh.staged (h : Fresh steps) (hs : IsStaged s) : Proven (steps ++ [s]) := by
  obtain ⟨xs, s₀, ys, rfl, hstart, hys⟩ := h
  refine ⟨xs, s₀, ys, s, [], by simp, hstart, hs, ?_⟩
  simpa using hys

theorem Proven.snoc (h : Proven steps) (hs : Harmless s) : Proven (steps ++ [s]) := by
  obtain ⟨xs, s₀, ys, s₁, zs, rfl, hstart, hstaged, hyz⟩ := h
  refine ⟨xs, s₀, ys, s₁, zs ++ [s], by simp, hstart, hstaged, ?_⟩
  intro s' hs'
  rw [← List.append_assoc, List.mem_append, List.mem_singleton] at hs'
  rcases hs' with hs' | rfl
  · exact hyz s' hs'
  · exact hs

end History

section Moments

variable {c : Call} {w₀ : OtaWorld} {m m' : Option OtaManager} {d : Disk}

theorem journaledBy_quiet {q : Req} {f : Fault Tear} (h : q ≠ .renameJournal ∨ f ≠ .ok) :
    journaledBy ⟨c, w₀, .io m m' q f d⟩ = none := by
  unfold journaledBy
  split
  · rename_i hio
    exact absurd hio (io_ne_rename h)
  · rfl

theorem journaledBy_rename {p : PersistedOta} (h : d.tmp = some (.whole p)) :
    journaledBy ⟨c, w₀, .io m m' .renameJournal .ok d⟩ = some p := by
  simp only [journaledBy, h]

/-- A moment that journals nothing and returns nothing. -/
theorem harmless_quiet {q : Req} {f : Fault Tear} (h : q ≠ .renameJournal ∨ f ≠ .ok) :
    Harmless ⟨c, w₀, .io m m' q f d⟩ := by
  have hnone : journaledBy ⟨c, w₀, .io m m' q f d⟩ = none := journaledBy_quiet h
  refine ⟨?_, ?_, ?_⟩
  · rintro ⟨_, p, _, hp, _⟩
    rw [hnone] at hp
    cases hp
  · rintro ⟨_, _, ⟨p, hp, _⟩ | ⟨_, _, _, _, hr⟩⟩
    · rw [hnone] at hp
      cases hp
    · cases hr
  · rintro ⟨p, hp, _⟩
    rw [hnone] at hp
    cases hp

/-- A journaled record that says nothing against the candidate. -/
theorem harmless_rename {p : PersistedOta} (ht : d.tmp = some (.whole p))
    (hc : ∀ manifest, c ≠ .startDownload manifest)
    (hp : p.state ≠ .failed ∧ p.state ≠ .rollbackPending ∧ p.state ≠ .rolledBack) :
    Harmless ⟨c, w₀, .io m m' .renameJournal .ok d⟩ := by
  have hsome : journaledBy ⟨c, w₀, .io m m' .renameJournal .ok d⟩ = some p := journaledBy_rename ht
  refine ⟨?_, ?_, ?_⟩
  · rintro ⟨manifest, _, hcall, _⟩
    exact hc manifest hcall
  · rintro ⟨_, _, ⟨p', hp', hfailed⟩ | ⟨_, _, _, _, hr⟩⟩
    · rw [hsome] at hp'
      cases hp'
      exact hp.1 hfailed
    · cases hr
  · rintro ⟨p', hp', hneg⟩
    rw [hsome] at hp'
    cases hp'
    exact hneg.elim hp.2.1 hp.2.2

/-- A return other than that of a `verify` that was let in and failed. -/
theorem harmless_ret {b : Except OtaError Reply} (h : ¬ VerifyFails ⟨c, w₀, .ret m m' b d⟩) :
    Harmless ⟨c, w₀, .ret m m' b d⟩ := by
  refine ⟨?_, h, ?_⟩
  · rintro ⟨_, _, _, hp, _⟩
    cases hp
  · rintro ⟨_, hp, _⟩
    cases hp

end Moments

/-! ## §2 What an answer of `verify` and of `health_check` says about the state. -/

section Answers

variable {key : Bytes} {crypto : Crypto}

/-- While journal requests do not fail: a `verify` that was let in and returns an error leaves
`Verifying` or `Failed`, and a `health_check(true)` that returns `Ok` leaves `Committed`. -/
structure Answer (c : Call) (w₀ : OtaWorld) (r : Except OtaError Reply × Option OtaManager) : Prop where
  verify : ∀ manifest a₀ e, c = .verify manifest → w₀.mem = some a₀ → a₀.state = .downloading →
    r.1 = .error e → ∃ a, r.2 = some a ∧ (a.state = .verifying ∨ a.state = .failed)
  healthy : ∀ detail b, c = .healthCheck true detail → r.1 = .ok b →
    ∃ a, r.2 = some a ∧ a.state = .committed

/-- No condition on requests. -/
abbrev Anything : Option OtaManager → Disk → Option OtaManager → Req → Prop := fun _ _ _ _ => True

theorem journal_cannot_fail {q : Req} (h : q.isJournal = true) : ¬ slotErrorsOnly q := by
  rw [slotErrorsOnly, h]
  exact Bool.noConfusion

theorem method_persist_ok {E : Option OtaManager → Disk → Except OtaError Unit × OtaManager → Prop}
    {m : OtaManager} {prev : Option OtaManager} {d : Disk} (hok : ∀ d', E (some m) d' (.ok (), m)) :
    MethodFollows device slotErrorsOnly Anything persist E m prev d := by
  refine method_get ?_
  refine method_bind (method_tryRequest trivial ?_ fun hq => absurd hq (journal_cannot_fail rfl))
  refine method_bind (method_request trivial ?_ fun hq => absurd hq (journal_cannot_fail rfl))
  refine method_bind (method_tryRequest trivial ?_ fun hq => absurd hq (journal_cannot_fail rfl))
  exact method_bind (method_request trivial (hok _) fun hq => absurd hq (journal_cannot_fail rfl))

theorem method_setState_ok {E : Option OtaManager → Disk → Except OtaError Unit × OtaManager → Prop}
    {s : OtaState} {m : OtaManager} {prev : Option OtaManager} {d : Disk}
    (hok : ∀ d', E (some { m with state := s }) d' (.ok (), { m with state := s })) :
    MethodFollows device slotErrorsOnly Anything (setState s) E m prev d :=
  method_bind (x := modify _) (method_persist_ok hok)

/-- An error of `verify` after the state check comes with `Verifying` or `Failed`. -/
abbrev LeftUnverified (_ : Option OtaManager) (_ : Disk) (r : Except OtaError Unit × OtaManager) : Prop :=
  ∀ e, r.1 = .error e → r.2.state = .verifying ∨ r.2.state = .failed

theorem verify_answer {manifest : OtaManifest} {a : OtaManager} {prev : Option OtaManager} {d : Disk}
    (hs : a.state = .downloading) :
    MethodFollows device slotErrorsOnly Anything (verify crypto manifest) LeftUnverified a prev d := by
  refine method_get ?_
  show MethodFollows device slotErrorsOnly Anything (if a.state ≠ .downloading then _ else _) _ a prev d
  rw [if_neg (not_not.mpr hs)]
  refine method_bind (method_setState_ok ?_)
  intro d'
  -- the rejecting tail, for a wrong digest and for a wrong signature
  have hreject : ∀ (why : String) (e : OtaError),
      MethodFollows device slotErrorsOnly Anything
        (do
          modify fun m => { m with lastError := some why }
          setState .failed
          throw e)
        LeftUnverified { a with state := .verifying } (some { a with state := .verifying }) d' := by
    intro why e
    refine method_bind (x := modify _) (method_bind (method_setState_ok ?_))
    intro _ _ _
    exact .inr rfl
  show MethodFollows device slotErrorsOnly Anything
    (if hexEncode (crypto.sha256 a.buffered) ≠ _ then _ else _) _ _ _ d'
  split
  · exact hreject _ _
  · cases hsig : checkSignature crypto a.verifyingKey a.buffered manifest with
    | error e =>
        intro _ _
        exact .inl rfl
    | ok accepted =>
        cases accepted with
        | false => exact hreject _ _
        | true =>
            -- a slot write that fails leaves `Verifying`
            refine method_bind (method_tryRequest trivial ?_ fun _ _ _ _ => .inl rfl)
            refine method_bind (method_tryRequest trivial ?_ fun _ _ _ _ => .inl rfl)
            refine method_bind (method_tryRequest trivial ?_ fun _ _ _ _ => .inl rfl)
            refine method_setState_ok ?_
            intro _ _ he
            cases he

theorem healthCheck_answer {detail : String} {a : OtaManager} {prev : Option OtaManager} {d : Disk} :
    MethodFollows device slotErrorsOnly Anything (healthCheck true detail)
      (fun _ _ r => ∀ b, r.1 = .ok b → r.2.state = .committed) a prev d := by
  refine method_get ?_
  show MethodFollows device slotErrorsOnly Anything (if a.state ≠ .healthChecking then _ else _) _ a prev d
  split
  · intro _ he
    cases he
  · refine method_bind (x := modify _) (method_setState_ok ?_)
    intro _ _ _
    rfl

theorem onManager_answer {α : Type} {x : OtaM α} {reply : α → Reply} {c : Call} {w₀ : OtaWorld}
    (hnone : w₀.mem = none → Answer c w₀ (.error (.other "no manager"), none))
    (hsome : ∀ a, w₀.mem = some a → MethodFollows device slotErrorsOnly Anything x
      (fun _ _ r => Answer c w₀ (r.1.map reply, some r.2)) a (some a) w₀.disk) :
    (onManager x reply w₀).Follows device slotErrorsOnly Anything (fun _ _ r => Answer c w₀ r)
      w₀.mem w₀.disk := by
  unfold onManager
  cases hm : w₀.mem with
  | none => exact hnone hm
  | some a => exact Prog.follows_bind.mpr (hsome a hm)

theorem verify_call_answer (manifest : OtaManifest) (w : OtaWorld) :
    ((ota crypto key).prog (.verify manifest) w).Follows device slotErrorsOnly Anything
      (fun _ _ r => Answer (.verify manifest) w r) w.mem w.disk := by
  refine onManager_answer ?_ ?_
  · intro hm
    refine ⟨?_, fun _ _ hc => (by cases hc)⟩
    intro _ a₀ _ _ ha₀
    rw [hm] at ha₀
    cases ha₀
  · intro a ha
    by_cases hs : a.state = .downloading
    · refine (verify_answer hs).mono ?_
      rintro _ _ ⟨r, b⟩ hb
      refine ⟨?_, fun _ _ hc => (by cases hc)⟩
      intro _ _ e _ _ _ he
      cases r with
      | error e' => exact ⟨b, rfl, hb e' rfl⟩
      | ok _ => cases he
    · -- not let in
      refine method_get ?_
      show MethodFollows device slotErrorsOnly Anything (if a.state ≠ .downloading then _ else _) _ a _ _
      rw [if_pos hs]
      refine ⟨?_, fun _ _ hc => (by cases hc)⟩
      intro _ a₀ _ _ ha₀ hdown
      rw [ha] at ha₀
      cases ha₀
      exact absurd hdown hs

theorem healthCheck_call_answer (detail : String) (w : OtaWorld) :
    ((ota crypto key).prog (.healthCheck true detail) w).Follows device slotErrorsOnly Anything
      (fun _ _ r => Answer (.healthCheck true detail) w r) w.mem w.disk := by
  refine onManager_answer ?_ ?_
  · intro _
    refine ⟨fun _ _ _ hc => (by cases hc), ?_⟩
    intro _ _ _ hok
    cases hok
  · intro a _
    refine healthCheck_answer.mono ?_
    rintro _ _ ⟨r, b⟩ hb
    refine ⟨fun _ _ _ hc => (by cases hc), ?_⟩
    intro _ _ _ hok
    cases r with
    | error e => cases hok
    | ok u => exact ⟨b, rfl, hb u rfl⟩

/-- The other calls promise nothing. -/
theorem answer_of_other {c : Call} {w₀ : OtaWorld} {r : Except OtaError Reply × Option OtaManager}
    (hverify : ∀ manifest, c ≠ .verify manifest) (hhealthy : ∀ detail, c ≠ .healthCheck true detail) :
    Answer c w₀ r :=
  ⟨fun manifest _ _ hc => absurd hc (hverify manifest), fun detail _ hc => absurd hc (hhealthy detail)⟩

/-- Every call, with what its answer says. -/
theorem ota_answers (crypto : Crypto) (key : Bytes) (c : Call) (w : OtaWorld) :
    ((ota crypto key).prog c w).Follows (ota crypto key).dev slotErrorsOnly (Micro crypto key c w)
      (fun m d r => Return key slotErrorsOnly c w m d r ∧ Answer c w r) w.mem w.disk := by
  have hfollows := ota_follows crypto key slotErrorsOnly c w
  have hanswer : ((ota crypto key).prog c w).Follows (ota crypto key).dev slotErrorsOnly Anything
      (fun _ _ r => Answer c w r) w.mem w.disk →
      ((ota crypto key).prog c w).Follows (ota crypto key).dev slotErrorsOnly (Micro crypto key c w)
        (fun m d r => Return key slotErrorsOnly c w m d r ∧ Answer c w r) w.mem w.disk :=
    fun h => (hfollows.and h).mono_requests fun _ _ _ _ hq => hq.1
  cases c with
  | verify manifest => exact hanswer (verify_call_answer manifest w)
  | healthCheck healthy detail =>
      cases healthy with
      | true => exact hanswer (healthCheck_call_answer detail w)
      | false => exact hfollows.mono fun _ _ _ hr => ⟨hr, answer_of_other (fun _ => nofun) (fun _ => nofun)⟩
  | _ => exact hfollows.mono fun _ _ _ hr => ⟨hr, answer_of_other (fun _ => nofun) (fun _ => nofun)⟩

end Answers

/-! ## §3 The chain behind a journaled state. -/

section Chain

variable {crypto : Crypto} {key : Bytes}

/-- What a journaled record stands on. -/
structure Standing (steps : List OtaStep) (p : PersistedOta) : Prop where
  downloading : p.state = .downloading → Fresh steps
  bootable : p.state.bootable = true ∨ p.state = .committed → Proven steps

theorem Standing.snoc {steps : List OtaStep} {p : PersistedOta} {s : OtaStep} (h : Standing steps p)
    (hs : Harmless s) : Standing (steps ++ [s]) p :=
  ⟨fun hp => (h.downloading hp).snoc hs, fun hp => (h.bootable hp).snoc hs⟩

/-- A record in any other state stands on nothing. -/
theorem standing_of_rest {steps : List OtaStep} {p : PersistedOta} (hd : p.state ≠ .downloading)
    (hb : p.state.bootable = false) (hc : p.state ≠ .committed) : Standing steps p := by
  refine ⟨fun h => absurd h hd, ?_⟩
  rintro (h | h)
  · rw [hb] at h
    cases h
  · exact absurd h hc

/-- Between two calls. -/
structure ChainInv (steps : List OtaStep) (w : OtaWorld) : Prop where
  synced : Synced w
  standing : ∀ p, w.disk.journal = some (.whole p) → Standing steps p

/-- Inside a call: a `verify` that was let in stands on the start also while `Verifying`. -/
structure ChainIn (steps : List OtaStep) (c : Call) (w₀ w : OtaWorld) : Prop where
  synced : Synced w₀
  standing : ∀ p, w.disk.journal = some (.whole p) → Standing steps p
  verifying : ∀ manifest a₀ p, c = .verify manifest → w₀.mem = some a₀ → a₀.state = .downloading →
    w.disk.journal = some (.whole p) → p.state = .verifying → Fresh steps

/-- What a completed `rename` of a call's record stands on. -/
theorem Assign.standing {steps : List OtaStep} {c : Call} {w₀ w : OtaWorld} {a b : OtaManager}
    {d d₁ : Disk} {m m' : Option OtaManager} (h : Assign crypto w₀ c a d₁ b)
    (hin : ChainIn steps c w₀ w) (hw : w.disk.journal = some (.whole a.record))
    (ht : d.tmp = some (.whole b.record)) :
    Standing (steps ++ [⟨c, w₀, .io m m' .renameJournal .ok d⟩]) b.record := by
  have hsome : journaledBy ⟨c, w₀, .io m m' .renameJournal .ok d⟩ = some b.record := journaledBy_rename ht
  have ha : Standing steps a.record := hin.standing _ hw
  -- from one bootable state to the next, or to `Committed`
  have hgo : a.state.bootable = true → (∀ manifest, c ≠ .startDownload manifest) →
      b.state.bootable = true ∨ b.state = .committed →
      Standing (steps ++ [⟨c, w₀, .io m m' .renameJournal .ok d⟩]) b.record := by
    intro hboot hc hb
    have hb' : b.state ≠ .failed ∧ b.state ≠ .rollbackPending ∧ b.state ≠ .rolledBack ∧
        b.state ≠ .downloading := by
      revert hb
      cases b.state <;> decide
    have hharm : Harmless ⟨c, w₀, .io m m' .renameJournal .ok d⟩ :=
      harmless_rename ht hc ⟨hb'.1, hb'.2.1, hb'.2.2.1⟩
    exact ⟨fun h => absurd h hb'.2.2.2, fun _ => (ha.bootable (.inl hboot)).snoc hharm⟩
  cases h with
  | start _ _ =>
      refine ⟨fun _ => fresh_start ⟨_, _, rfl, hsome, rfl⟩, ?_⟩
      rintro (hb | hb) <;> cases hb
  | staged hst _ =>
      obtain ⟨a₀, hmem, hdown, rfl⟩ := hst.entry
      have hfresh : Fresh steps := hin.verifying _ a₀ _ rfl hmem hdown hw rfl
      refine ⟨nofun, fun _ => hfresh.staged ⟨_, _, rfl, hsome, rfl⟩⟩
  | rebootPending _ hs => exact hgo (by rw [hs]; rfl) (fun _ => nofun) (.inl rfl)
  | booting _ hs => exact hgo (by rw [hs]; rfl) (fun _ => nofun) (.inl rfl)
  | checking _ hs => exact hgo (by rw [hs]; rfl) (fun _ => nofun) (.inl rfl)
  | commit _ hs => exact hgo (by rw [hs]; rfl) (fun _ => nofun) (.inr rfl)
  | recheck _ hs =>
      exact hgo (by rcases hs with hs | hs | hs <;> rw [hs] <;> rfl) (fun _ => nofun) (.inl rfl)
  | verifying _ _ => exact standing_of_rest nofun rfl nofun
  | rejected _ _ => exact standing_of_rest nofun rfl nofun
  | unhealthy _ _ => exact standing_of_rest nofun rfl nofun
  | autoRollback _ _ => exact standing_of_rest nofun rfl nofun
  | rollback _ _ => exact standing_of_rest nofun rfl nofun
  | restart _ _ => exact standing_of_rest nofun rfl nofun

/-- The `Verifying` record of a `verify` that was let in stands on the same start. -/
theorem Assign.verifying_fresh {steps : List OtaStep} {w₀ w : OtaWorld} {manifest : OtaManifest}
    {a b : OtaManager} {d d₁ : Disk} {m m' : Option OtaManager}
    (h : Assign crypto w₀ (.verify manifest) a d₁ b) (hin : ChainIn steps (.verify manifest) w₀ w)
    (hw : w.disk.journal = some (.whole a.record)) (ht : d.tmp = some (.whole b.record))
    (hb : b.state = .verifying) :
    Fresh (steps ++ [⟨.verify manifest, w₀, .io m m' .renameJournal .ok d⟩]) := by
  cases h with
  | verifying _ hs =>
      refine ((hin.standing _ hw).downloading hs).snoc (harmless_rename ht (fun _ => nofun) ?_)
      exact ⟨nofun, nofun, nofun⟩
  | rejected _ _ => cases hb
  | staged _ _ => cases hb

/-- **One request.** -/
theorem ChainIn.after_request {steps : List OtaStep} {c : Call} {w₀ : OtaWorld} {m m' : Option OtaManager}
    {d : Disk} {q : Req} {f : Fault Tear} (hin : ChainIn steps c w₀ ⟨m, d⟩)
    (h : Micro crypto key c w₀ m d m' q) :
    ChainIn (steps ++ [⟨c, w₀, .io m m' q f d⟩]) c w₀ ⟨m', device.after q d f⟩ := by
  by_cases hq : q ≠ .renameJournal ∨ f ≠ .ok
  · have hharm : Harmless ⟨c, w₀, .io m m' q f d⟩ := harmless_quiet hq
    have hj : (device.after q d f).journal = d.journal := after_journal hq
    refine ⟨hin.synced, ?_, ?_⟩
    · intro p hp
      exact (hin.standing p (hj.symm.trans hp)).snoc hharm
    · intro manifest a₀ p hc ha₀ hdown hp hs
      exact (hin.verifying manifest a₀ p hc ha₀ hdown (hj.symm.trans hp) hs).snoc hharm
  · obtain ⟨rfl, rfl⟩ := rename_ok_of_not hq
    cases h with
    | renameInitial hc _ ht =>
        have hj := after_rename ht
        refine ⟨hin.synced, ?_, ?_⟩
        · intro p hp
          rw [hj] at hp
          cases hp
          exact standing_of_rest nofun rfl nofun
        · intro manifest _ _ hverify
          rw [hc] at hverify
          cases hverify
    | rename hassign hj₁ _ ht =>
        have hj := after_rename ht
        have hw := hj₁.trans (hassign.source_journaled hin.synced)
        refine ⟨hin.synced, ?_, ?_⟩
        · intro p hp
          rw [hj] at hp
          cases hp
          exact hassign.standing hin hw ht
        · intro manifest a₀ p hc _ _ hp hs
          subst hc
          rw [hj] at hp
          cases hp
          exact hassign.verifying_fresh hin hw ht hs

/-- A commit write finds the chain complete. -/
theorem ChainIn.commit_write {steps : List OtaStep} {c : Call} {w₀ : OtaWorld} {m m' : Option OtaManager}
    {d : Disk} {q : Req} {f : Fault Tear} (hin : ChainIn steps c w₀ ⟨m, d⟩)
    (h : Micro crypto key c w₀ m d m' q) (hs : IsCommit ⟨c, w₀, .io m m' q f d⟩) : Proven steps := by
  rcases hs with hwrite | ⟨_, _, _, hr⟩
  swap
  · cases hr
  by_cases hq : q ≠ .renameJournal ∨ f ≠ .ok
  · rw [isCommitWrite_quiet hq] at hwrite
    cases hwrite
  · obtain ⟨rfl, rfl⟩ := rename_ok_of_not hq
    cases h with
    | renameInitial hc _ _ =>
        rw [hc] at hwrite
        cases hwrite
    | rename hassign hj₁ _ _ =>
        have hw := hj₁.trans (hassign.source_journaled hin.synced)
        rcases hassign.commit_or_keep with ⟨_, _, _, hhealth, _⟩ | ⟨hkeep, _, _⟩
        · refine (hin.standing _ hw).bootable (.inl ?_)
          rw [OtaManager.record_state, hhealth]
          rfl
        · rw [hassign.isCommitWrite_of_keep hkeep] at hwrite
          cases hwrite

/-- A return: only that of a failed `verify` breaks the chain, and it leaves nothing standing. -/
theorem ChainIn.after_return {steps : List OtaStep} {c : Call} {w₀ : OtaWorld} {m m' : Option OtaManager}
    {d : Disk} {b : Except OtaError Reply} (hin : ChainIn steps c w₀ ⟨m, d⟩)
    (hsync : Synced ⟨m', d⟩) (hans : Answer c w₀ (b, m')) :
    ∀ p, d.journal = some (.whole p) → Standing (steps ++ [⟨c, w₀, .ret m m' b d⟩]) p := by
  intro p hp
  by_cases hfails : VerifyFails ⟨c, w₀, .ret m m' b d⟩
  · obtain ⟨manifest, hc, ⟨_, hnone, _⟩ | ⟨a₀, e, ha₀, hdown, he⟩⟩ := hfails
    · cases hnone
    obtain ⟨a, ha, hs⟩ := hans.verify manifest a₀ e hc ha₀ hdown (Option.some.inj he)
    have hj : d.journal = some (.whole a.record) := hsync a ha
    rw [hj] at hp
    cases hp
    rcases hs with hs | hs
    · exact standing_of_rest (by simp [hs]) (by simp [hs, OtaState.bootable]) (by simp [hs])
    · exact standing_of_rest (by simp [hs]) (by simp [hs, OtaState.bootable]) (by simp [hs])
  · exact (hin.standing p hp).snoc (harmless_ret hfails)

/-- An `Ok` of `health_check(true)` finds the chain complete. -/
theorem ChainIn.acknowledged {steps : List OtaStep} {c : Call} {w₀ : OtaWorld} {m m' : Option OtaManager}
    {d : Disk} {b : Except OtaError Reply} (hin : ChainIn steps c w₀ ⟨m, d⟩)
    (hsync : Synced ⟨m', d⟩) (hans : Answer c w₀ (b, m')) (hs : IsCommit ⟨c, w₀, .ret m m' b d⟩) :
    Proven steps := by
  rcases hs with hwrite | ⟨detail, r, hc, hr⟩
  · rw [isCommitWrite_ret] at hwrite
    cases hwrite
  · obtain ⟨a, ha, hstate⟩ := hans.healthy detail r hc (Option.some.inj hr)
    exact (hin.standing _ (hsync a ha)).bootable (.inr hstate)

end Chain

/-- The ghost data is the history itself. -/
def chainInvariant (crypto : Crypto) (key : Bytes) :
    Invariant (ota crypto key) slotErrorsOnly (fun _ => True) (Micro crypto key)
      (fun c w m d r => Return key slotErrorsOnly c w m d r ∧ Answer c w r) (List OtaStep) where
  upd steps s := steps ++ [s]
  At := ChainInv
  In := ChainIn
  Good steps s := IsCommit s → Proven steps
  enter {g c w} h := by
    refine ⟨h.synced, h.standing, ?_⟩
    intro _ a₀ p _ ha₀ hdown hp hs
    have hj := h.synced a₀ ha₀
    rw [Journaled, hp] at hj
    cases hj
    rw [OtaManager.record_state, hdown] at hs
    cases hs
  live inv h _ _ _ := ⟨inv.commit_write h, inv.after_request h⟩
  die {g c w₀ m d m' q t} inv h _ := by
    refine ⟨inv.commit_write h, synced_none _, ?_⟩
    exact (inv.after_request (f := .die t) h).standing
  ret {g c w₀ m d b m'} inv h _ := by
    have hsync := h.1.synced inv.synced
    exact ⟨inv.acknowledged hsync h.2, hsync, inv.after_return hsync h.2⟩

/-- **Commit provenance.** In every run whose journal requests do not fail (the process may die at any
request and be reopened, slot files may fail or tear), what precedes a commit ends with a
`start_download` whose `Downloading` write completed and, after it, a `verify` whose `Staged` write
completed; since that start there is no other journaled start, no failed verification and no journaled
`RollbackPending` or `RolledBack`. -/
theorem commits_are_proven (crypto : Crypto) (key : Bytes) (slots : Slot → SlotDir) (sched : Schedule)
    (hfail : ∀ s ∈ ((ota crypto key).run sched (factory slots)).1, FailsOnly slotErrorsOnly s)
    (pre post : List OtaStep) (s : OtaStep)
    (hrun : ((ota crypto key).run sched (factory slots)).1 = pre ++ s :: post) (hs : IsCommit s) :
    Proven pre := by
  have hstart : ChainInv [] (factory slots) := ⟨synced_none _, fun _ hp => (by cases hp)⟩
  have halong := ((chainInvariant crypto key).along_run (ota_answers crypto key) sched hstart
    (fun s hs => ⟨hfail s hs, trivial⟩)).1
  rw [hrun] at halong
  have hghost : pre.foldl (chainInvariant crypto key).upd [] = pre := by
    simp [chainInvariant, ← List.flatMap_def]
  rw [← hghost]
  exact halong.at_split hs

/-- The commit write of a first update. -/
theorem commits_are_proven_firstUpdate :
    ∃ pre s post, firstUpdate = pre ++ s :: post ∧ isCommitWrite s = true ∧ Proven pre := by
  obtain ⟨hlen, hwrite⟩ := firstUpdate_commitWrite
  have hsplit := split_at hlen
  have hproven := commits_are_proven tabulated releaseKey emptySlots _ (firstUpdate_failsOnly _) _ _ _
    hsplit (.inl hwrite)
  exact ⟨_, _, _, hsplit, hwrite, hproven⟩

end Edgewarden.Ota
