/-
# Edgewarden.Agent.PowerLoss — the state file of the agent under power loss.

`StateStore::persist` writes `state.tmp` and renames it over the state file. It syncs neither the file nor the
directory, unlike `persist` of the OTA journal. A process that dies leaves the files as it saw them
(`Agent.LastGood`); a power loss keeps any selection of the writes that are not durable (`Lib.Durable`).

* §1 is the agent on such storage; `powered_agent_view` says that what a process sees of its runs is a run of
  `Agent.LastGood`.
* `state_after_power_loss`: what the agent finds is a store that it has persisted, or a file that does not
  decode; the latter only where the name of a file survives without its contents.
* `state_never_durable`: nothing forces the contents to survive. There is always a loss after which the agent
  starts anew, and, once there is a state file, one after which `EdgeAgent::new` refuses to start, and with it
  the dataplane of `edge-agent`.

The directory of the state file is taken to be durable.
-/
import Edgewarden.Agent.OnDisk
import Edgewarden.Lib.Durable

namespace Edgewarden.Agent

open Edgewarden.Durable Edgewarden.FaultIo Edgewarden.Registry Edgewarden.Serde Edgewarden.State

/-! ## §1 The agent on storage that can lose writes. -/

/-- The state file and its temporary file. A new file is empty, which does not decode. -/
abbrev StoreStorage := Replaced (Contents Json)

def completeOn : StoreReq → StoreStorage → StoreStorage
  | .writeTmp bytes, r => r.writeTmp .garbled (.whole bytes)
  | .rename, r => r.rename .garbled
  | _, r => r

def tearOn : StoreReq → StoreTear → StoreStorage → StoreStorage
  | .writeTmp _, .torn, r => r.writeTmp .garbled .garbled
  | _, _, r => r

def storeStorage : Device StoreReq StoreTear StoreStorage where
  complete := completeOn
  tear := tearOn

/-- The files as a process sees them. -/
def seen (r : StoreStorage) : StoreDisk := ⟨r.visible, r.tmp.view⟩

theorem seen_rename (r : StoreStorage) : seen (r.rename .garbled) = StoreReq.rename.complete (seen r) := by
  unfold Replaced.rename
  by_cases h : r.tmp.entry.value = true
  · have htmp : (seen r).tmp = some r.tmp.contents.value := by simp [seen, File.view, h]
    rw [if_pos h]
    simp only [StoreReq.complete, htmp]
    simp [seen, Replaced.visible, File.view]
  · have htmp : (seen r).tmp = none := by simp [seen, File.view, h]
    rw [if_neg h]
    simp only [StoreReq.complete, htmp]

theorem seen_writeTmp (r : StoreStorage) (c : Contents Json) :
    seen (r.writeTmp .garbled c) = { seen r with tmp := some c } := by
  simp [seen, Replaced.writeTmp, Replaced.visible]

/-- To a process the finer device is the device of `State.Store`. -/
theorem storeStorage_maps : storeStorage.Maps storeDevice seen where
  complete q r := by
    cases q with
    | createDir => rfl
    | read => rfl
    | writeTmp bytes => exact seen_writeTmp r _
    | rename => exact seen_rename r
  tear q t r := by
    cases t with
    | untouched => cases q <;> rfl
    | torn =>
        cases q with
        | writeTmp bytes => exact seen_writeTmp r _
        | _ => rfl

abbrev PoweredAgent := World (Option StateStore) StoreStorage

def poweredStep (cfg : AgentConfig) (w : PoweredAgent) : AgentEvent → PoweredAgent
  | .sync c =>
      match w.mem with
      | some s => ((c.syncOnce cfg s).exec storeStorage none (some s) c.faults w.disk).2
      | none => w
  | .crash => ⟨none, w.disk⟩
  | .reopen faults =>
      match w.mem with
      | some _ => w
      | none => ((openAgent w.disk.visible).exec storeStorage none none faults w.disk).2

/-- The agent after a sequence of events, on storage that was empty at first. -/
def poweredAfter (cfg : AgentConfig) (events : List AgentEvent) : PoweredAgent :=
  events.foldl (poweredStep cfg) ⟨some .fresh, .missing .garbled⟩

theorem poweredAfter_snoc (cfg : AgentConfig) (events : List AgentEvent) (e : AgentEvent) :
    poweredAfter cfg (events ++ [e]) = poweredStep cfg (poweredAfter cfg events) e := by
  simp [poweredAfter]

theorem poweredStep_seen (cfg : AgentConfig) (w : PoweredAgent) (e : AgentEvent) :
    (poweredStep cfg w e).map seen = agentStep cfg (w.map seen) e := by
  cases e with
  | crash => rfl
  | sync c =>
      unfold poweredStep agentStep
      cases hmem : w.mem with
      | none => simp [World.map, hmem]
      | some s =>
          simp only [World.map, hmem, Cycle.run]
          rw [Prog.exec_map storeStorage_maps]
          rfl
  | reopen faults =>
      unfold poweredStep agentStep
      cases hmem : w.mem with
      | some s => simp [World.map, hmem]
      | none =>
          simp only [World.map, hmem, openRun]
          rw [Prog.exec_map storeStorage_maps]
          rfl

/-- **The layers agree**: a run on the finer device, seen by the process, is a run of `Agent.LastGood`. -/
theorem powered_agent_view (cfg : AgentConfig) (events : List AgentEvent) :
    (poweredAfter cfg events).map seen = agentAfter cfg events := by
  induction events using List.reverseRecOn with
  | nil => rfl
  | append_singleton events e ih => rw [poweredAfter_snoc, agentAfter_snoc, poweredStep_seen, ih]

/-! ## §2 What is written where. -/

/-- The contents that `persist` writes for a store with `P`. -/
def Written (P : StateStore → Prop) (c : Contents Json) : Prop := ∃ s : StateStore, c = .whole s.json ∧ P s

/-- The storage of an agent that has only persisted stores with `P`. -/
structure Shelf (P : StateStore → Prop) (r : StoreStorage) : Prop where
  sound : r.Sound (Written P) .garbled
  unsynced : r.Unsynced .garbled

section Methods

variable {P : StateStore → Prop} {r : StoreStorage} {s : StateStore} {prev : Option StateStore}

theorem Shelf.mono {P' : StateStore → Prop} (h : Shelf P r) (hP : ∀ s, P s → P' s) : Shelf P' r where
  sound := h.sound.mono fun _ ⟨s, hc, hs⟩ => ⟨s, hc, hP s hs⟩
  unsynced := h.unsynced

theorem Shelf.torn (h : Shelf P r) (q : StoreReq) (t : StoreTear) : Shelf P (tearOn q t r) := by
  cases q with
  | writeTmp bytes =>
      cases t with
      | untouched => exact h
      | torn => exact ⟨h.sound.writeTmp (.inl rfl), h.unsynced.writeTmp _⟩
  | _ => cases t <;> exact h

theorem Shelf.staged (h : Shelf P r) (hs : P s) : Shelf P (r.writeTmp .garbled (.whole s.json)) where
  sound := h.sound.writeTmp (.inr ⟨s, rfl, hs⟩)
  unsynced := h.unsynced.writeTmp _

/-- The rename of `persist` comes right after the write. -/
theorem Shelf.renamed (h : Shelf P r) (hs : P s) :
    Shelf P ((r.writeTmp .garbled (.whole s.json)).rename .garbled) where
  sound := by
    refine (h.staged hs).sound.rename ⟨s, ?_, hs⟩
    exact (File.view_eq_some (File.view_write .garbled r.tmp (.whole s.json))).2
  unsynced := (h.staged hs).unsynced.rename

/-- The obligation on requests: the storage is in order whenever one is issued. -/
abbrev OnShelf (P : StateStore → Prop) : Option StateStore → StoreStorage → Option StateStore → StoreReq → Prop :=
  fun _ r _ _ => Shelf P r

theorem method_persist_shelf
    {E : Option StateStore → StoreStorage → Except StateError Unit × StateStore → Prop} (h : Shelf P r) (hs : P s)
    (hok : ∀ r', Shelf P r' → E (some s) r' (.ok (), s))
    (hcut : ∀ r', Shelf P r' → E (some s) r' (.error .io, s)) :
    MethodFollows storeStorage (fun _ => True) (OnShelf P) persist E s prev r := by
  refine method_get ?_
  refine method_bind (method_requestOr h ?_ (fun _ t => hcut _ (h.torn .createDir t)))
  refine method_bind (method_requestOr h ?_ (fun _ t => hcut _ (h.torn (.writeTmp s.json) t)))
  exact method_requestOr (h.staged hs) (hok _ (h.renamed hs)) (fun _ t => hcut _ ((h.staged hs).torn .rename t))

theorem method_ingest_shelf {d : DesiredState}
    {E : Option StateStore → StoreStorage → Except StateError ReconcileAction × StateStore → Prop} (h : Shelf P r)
    (htrack : P (s.track d))
    (hok : ∀ prev' r', Shelf P r' → E prev' r' (.ok (s.reported.diff d), s.track d))
    (hcut : ∀ r', Shelf P r' → E (some (s.track d)) r' (.error .io, s.track d)) :
    MethodFollows storeStorage (fun _ => True) (OnShelf P) (ingest d) E s prev r := by
  unfold StateStore.track at htrack hok hcut
  refine method_get ?_
  show MethodFollows storeStorage _ _ (do
    if s.isNewer d then
      set { s with desired := some d }
      persist
    return s.reported.diff d) E s prev r
  by_cases hnew : s.isNewer d = true
  · simp only [if_pos hnew] at htrack hok hcut ⊢
    exact method_bind (x := set _) (method_bind (method_persist_shelf h htrack (fun r' => hok _ r') hcut))
  · simp only [if_neg hnew] at hok ⊢
    exact hok prev r h

theorem processMessage_shelf {d : DesiredState} (h : Shelf P r) (htrack : P (s.track d))
    (hprocess : P (s.process d)) :
    MethodFollows storeStorage (fun _ => True) (OnShelf P) (processMessage d) (fun _ r' _ => Shelf P r') s prev r := by
  refine method_bind (method_ingest_shelf h htrack ?_ (fun _ hr' => hr'))
  intro prev' r' hr'
  cases hdiff : s.reported.diff d with
  | applyPolicy policy =>
      have happlied : P ((s.track d).applied policy d.seq) := StateStore.process_applied hdiff ▸ hprocess
      show MethodFollows storeStorage _ _ (do
        let _ ← markPolicyApplied policy d.seq
        return true) _ (s.track d) prev' r'
      refine method_bind (method_get (method_bind (x := set _) (method_bind ?_)))
      exact method_persist_shelf hr' happlied (fun _ hr'' => hr'') (fun _ hr'' => hr'')
  | noop => exact hr'
  | stageOta v => exact hr'

/-- A call of `sync_once`, wherever it is cut. -/
theorem syncOnce_shelf {cfg : AgentConfig} {c : Cycle} (h : Shelf P r) (htrack : ∀ d, P (s.track d))
    (hprocess : ∀ hb p, c.exchange cfg s = .ok hb → hb.policy = some p → P (s.process (desiredOf s hb p))) :
    Shelf P ((c.syncOnce cfg s).exec storeStorage none (some s) c.faults r).2.disk := by
  have hfollows : (c.syncOnce cfg s).Follows storeStorage (fun _ => True) (OnShelf P)
      (fun _ r' _ => Shelf P r') (some s) r := by
    unfold Cycle.syncOnce
    cases hex : c.exchange cfg s with
    | error e => exact h
    | ok hb =>
        unfold handle
        rw [Prog.follows_bind]
        have hresponse : MethodFollows storeStorage (fun _ => True) (OnShelf P) (handleResponse hb)
            (fun _ r' _ => Shelf P r') s (some s) r := by
          unfold handleResponse
          by_cases hhas : hb.hasPolicy = true
          · rw [if_pos hhas]
            cases hp : hb.policy with
            | none => exact h
            | some p => exact method_get (processMessage_shelf h (htrack _) (hprocess hb p hex hp))
          · rw [if_neg hhas]
            exact h
        exact hresponse.mono fun _ _ _ hr' => hr'
  rcases hfollows.outcome none c.faults with ⟨_, r', _, q, t, hr', hworld, _⟩ | ⟨_, r', _, _, hr', hworld, _⟩
  · rw [hworld]
    exact hr'.torn q t
  · rw [hworld]
    exact hr'

/-- Opening an agent writes nothing. -/
theorem openAgent_disk (faults : List (Fault StoreTear)) (file : Option (Contents Json)) (r : StoreStorage) :
    ((openAgent file).exec storeStorage none none faults r).2.disk = r := by
  have hfollows : (openAgent file).Follows storeStorage (fun _ => True) (fun _ r' _ q => r' = r ∧ q = .read)
      (fun _ r' _ => r' = r) none r := by
    unfold openAgent
    rw [Prog.follows_bind]
    cases file with
    | none => rfl
    | some contents =>
        refine ⟨⟨rfl, rfl⟩, ?_, fun _ t => ?_⟩
        · show Prog.Follows storeStorage _ _ _ (Prog.done (decodeStore contents)) none r
          cases decodeStore contents <;> rfl
        · cases t <;> rfl
  rcases hfollows.outcome none faults with ⟨_, r', _, q, t, ⟨hr', hq⟩, hworld, _⟩ | ⟨_, r', _, _, hr', hworld, _⟩
  · rw [hworld, hr', hq]
    cases t <;> rfl
  · rw [hworld]
    exact hr'

end Methods

/-! ## §3 Power loss. -/

section Runs

variable {cfg : AgentConfig} {events : List AgentEvent}

/-- The agent has only persisted stores with a policy that was received. -/
theorem powered_shelf (cfg : AgentConfig) (events : List AgentEvent) :
    Shelf (LastGood cfg events) (poweredAfter cfg events).disk := by
  induction events using List.reverseRecOn with
  | nil => exact ⟨Replaced.missing_sound _ _, Replaced.missing_unsynced _⟩
  | append_singleton events e ih =>
      have hlater := ih.mono fun s (hs : LastGood cfg events s) => hs.later e
      have hview := powered_agent_view cfg events
      rw [poweredAfter_snoc]
      cases e with
      | crash => exact hlater
      | reopen faults =>
          unfold poweredStep
          cases hmem : (poweredAfter cfg events).mem with
          | some s => exact hlater
          | none =>
              simp only
              rw [openAgent_disk]
              exact hlater
      | sync c =>
          unfold poweredStep
          cases hmem : (poweredAfter cfg events).mem with
          | none => exact hlater
          | some s =>
              have hagent : (agentAfter cfg events).mem = some s := by
                rw [← hview]
                exact hmem
              have hs := (lastGood_after cfg events).mem s hagent
              refine syncOnce_shelf hlater (fun d => (hs.later _).track d) ?_
              intro hb p hex hp
              exact (hs.later _).process (.received hagent hex hp)

/-- The state file after a power loss. -/
def afterLoss (cfg : AgentConfig) (events : List AgentEvent) (keepEntry keepContents : Nat → Bool) : StoreDisk :=
  ⟨(poweredAfter cfg events).disk.lose keepEntry keepContents, none⟩

/-- **What an agent finds after a power loss.** In every run, whatever fails and wherever it dies, and for every
selection of writes that a power loss keeps: the agent opens with a store that reports the version of its
policy, which is the compiled default or was received in the run, or it finds a state file that does not decode.
The former, if the loss keeps the contents of the file that it leaves under the name. -/
theorem state_after_power_loss (cfg : AgentConfig) (events : List AgentEvent) (keepEntry keepContents : Nat → Bool) :
    ((∃ s, reopened (afterLoss cfg events keepEntry keepContents) = .ok s ∧ LastGood cfg events s) ∨
        reopened (afterLoss cfg events keepEntry keepContents) = .error .decode) ∧
      ((poweredAfter cfg events).disk.KeepsNamed keepEntry keepContents →
        ∃ s, reopened (afterLoss cfg events keepEntry keepContents) = .ok s ∧ LastGood cfg events s) := by
  have hshelf := powered_shelf cfg events
  cases hlost : (poweredAfter cfg events).disk.lose keepEntry keepContents with
  | none =>
      have hfresh : reopened (afterLoss cfg events keepEntry keepContents) = .ok .fresh := by
        unfold afterLoss
        rw [hlost]
        rfl
      exact ⟨.inl ⟨_, hfresh, lastGood_fresh cfg events⟩, fun _ => ⟨_, hfresh, lastGood_fresh cfg events⟩⟩
  | some contents =>
      have hopen : ∀ s : StateStore, contents = .whole s.json →
          reopened (afterLoss cfg events keepEntry keepContents) = .ok s := by
        intro s hs
        refine reopened_whole ?_
        show (poweredAfter cfg events).disk.lose _ _ = _
        rw [hlost, hs]
      obtain ⟨hfound, hkept⟩ := hshelf.sound.lost hlost
      refine ⟨?_, ?_⟩
      · rcases hfound with rfl | ⟨s, hs, hgood⟩
        · right
          unfold afterLoss
          rw [hlost]
          rfl
        · exact .inl ⟨s, hopen s hs, hgood⟩
      · intro hkeeps
        obtain ⟨s, hs, hgood⟩ := hkept hkeeps
        exact ⟨s, hopen s hs, hgood⟩

/-- A loss that keeps everything, after a policy of version 7. -/
theorem state_after_power_loss_kept :
    ∃ s, reopened (afterLoss anEdge [.sync (carrying 7 1)] (fun _ => true) fun _ => true) = .ok s ∧
      LastGood anEdge [.sync (carrying 7 1)] s :=
  (state_after_power_loss anEdge [.sync (carrying 7 1)] (fun _ => true) fun _ => true).2 fun _ _ _ => rfl

/-- **Nothing that the agent persists is durable.** In every run there is a power loss after which the agent opens
as a new one, whatever policies it has applied and reported; and if there is a state file, one after which it
does not open at all. -/
theorem state_never_durable (cfg : AgentConfig) (events : List AgentEvent) :
    (∀ keepContents, reopened (afterLoss cfg events (fun _ => false) keepContents) = .ok .fresh) ∧
      ((agentAfter cfg events).disk.file ≠ none →
        ∃ keepEntry keepContents, reopened (afterLoss cfg events keepEntry keepContents) = .error .decode ∧
          ∀ faults, (openRun faults (afterLoss cfg events keepEntry keepContents)).mem = none) := by
  have hunsynced := (powered_shelf cfg events).unsynced
  refine ⟨?_, ?_⟩
  · intro keepContents
    unfold afterLoss
    rw [hunsynced.lose_all]
    rfl
  · intro hfile
    have hvisible : (poweredAfter cfg events).disk.visible ≠ none := by
      rw [← powered_agent_view] at hfile
      exact hfile
    have hgarbled : (afterLoss cfg events (fun _ => true) (fun _ => false)).file = some .garbled :=
      hunsynced.lose_contents hvisible
    refine ⟨fun _ => true, fun _ => false, ?_, ?_⟩
    · unfold reopened
      rw [hgarbled]
      rfl
    · intro faults
      by_contra hopens
      obtain ⟨s, hs⟩ := Option.ne_none_iff_exists'.mp hopens
      rcases (open_outcome faults _).2 s hs with ⟨hnone, _⟩ | ⟨contents, hcontents, hdecode⟩
      · cases hgarbled.symm.trans hnone
      · cases hgarbled.symm.trans hcontents
        cases hdecode

/-- After one policy. -/
theorem state_never_durable_applied :
    ∃ keepEntry keepContents,
      reopened (afterLoss anEdge [.sync (carrying 7 1)] keepEntry keepContents) = .error .decode ∧
        ∀ faults, (openRun faults (afterLoss anEdge [.sync (carrying 7 1)] keepEntry keepContents)).mem = none :=
  (state_never_durable anEdge [.sync (carrying 7 1)]).2 (Option.some_ne_none _)

end Runs

end Edgewarden.Agent
