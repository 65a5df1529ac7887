/-
# Edgewarden.State.Store — the durable `StateStore` of `edge-state/src/lib.rs`.

`persist`, `ingest`, `mark_policy_applied` and `open`, request by request. The fields are assigned
BEFORE the file is written, and an error of the write leaves them assigned, so the store in memory can
run ahead of the state file.

* The state file holds JSON; a temporary file that was cut short holds bytes that do not decode. Only
  `rename` puts anything under the state file's name.
* `create_dir_all` is issued for every path; where the path has no directory part it is a request
  that always succeeds.
-/
import Edgewarden.Lib.Json
import Edgewarden.Lib.Method
import Edgewarden.State.Reconcile

namespace Edgewarden.State

open Edgewarden.FaultIo Edgewarden.Serde

/-! ## §1 The file format. -/

/-- `Serialize` and `Deserialize` of the edge's `Policy`; `rules_json` may be missing. -/
def Policy.codec : Codec Policy where
  encode p := .obj [
    ("version", Codec.u64.encode p.version),
    ("max_connections", Codec.u32.encode p.maxConnections),
    ("idle_timeout_secs", Codec.u64.encode p.idleTimeoutSecs),
    ("default_upstream", Codec.string.encode p.defaultUpstream),
    ("rules_json", Codec.string.encode p.rulesJson)]
  decode j := do
    let version ← Codec.u64.get j "version"
    let maxConnections ← Codec.u32.get j "max_connections"
    let idleTimeoutSecs ← Codec.u64.get j "idle_timeout_secs"
    let defaultUpstream ← Codec.string.get j "default_upstream"
    let rulesJson ← Codec.string.getOr "" j "rules_json"
    return { version, maxConnections, idleTimeoutSecs, defaultUpstream, rulesJson }

def DesiredState.codec : Codec DesiredState where
  encode d := .obj [
    ("seq", Codec.nat.encode d.seq),
    ("policy", Policy.codec.encode d.policy),
    ("software_version", Codec.string.encode d.softwareVersion)]
  decode j := do
    let seq ← Codec.nat.get j "seq"
    let policy ← Policy.codec.get j "policy"
    let softwareVersion ← Codec.string.get j "software_version"
    return { seq, policy, softwareVersion }

def ReportedState.codec : Codec ReportedState where
  encode r := .obj [
    ("policy_version", Codec.u64.encode r.policyVersion),
    ("software_version", Codec.string.encode r.softwareVersion),
    ("applied_seq", Codec.nat.encode r.appliedSeq)]
  decode j := do
    let policyVersion ← Codec.u64.get j "policy_version"
    let softwareVersion ← Codec.string.get j "software_version"
    let appliedSeq ← Codec.nat.get j "applied_seq"
    return { policyVersion, softwareVersion, appliedSeq }

/-- `Persisted`. -/
def StateStore.codec : Codec StateStore where
  encode s := .obj [
    ("desired", (Codec.option DesiredState.codec).encode s.desired),
    ("reported", ReportedState.codec.encode s.reported),
    ("last_good_policy", Policy.codec.encode s.lastGoodPolicy)]
  decode j := do
    let desired ← (Codec.option DesiredState.codec).getOr none j "desired"
    let reported ← ReportedState.codec.get j "reported"
    let lastGoodPolicy ← Policy.codec.get j "last_good_policy"
    return { desired, reported, lastGoodPolicy }

theorem policy_survives (p : Policy) : Policy.codec.Survives p := by
  simp [Codec.Survives, Policy.codec, Codec.get_tail, Codec.getOr_tail]

theorem desiredState_survives (d : DesiredState) : DesiredState.codec.Survives d := by
  have hpolicy : Policy.codec.decode (Policy.codec.encode d.policy) = some d.policy :=
    policy_survives d.policy
  simp [Codec.Survives, DesiredState.codec, Codec.get_tail, hpolicy]

theorem reportedState_survives (r : ReportedState) : ReportedState.codec.Survives r := by
  simp [Codec.Survives, ReportedState.codec, Codec.get_tail]

/-- **A store read back is the store that was written.** -/
theorem stateStore_survives (s : StateStore) : StateStore.codec.Survives s := by
  have hdesired : (Codec.option DesiredState.codec).decode
      ((Codec.option DesiredState.codec).encode s.desired) = some s.desired :=
    Codec.option_survives (fun _ h => by cases h) desiredState_survives s.desired
  have hreported : ReportedState.codec.decode (ReportedState.codec.encode s.reported) =
      some s.reported := reportedState_survives s.reported
  have hpolicy : Policy.codec.decode (Policy.codec.encode s.lastGoodPolicy) = some s.lastGoodPolicy :=
    policy_survives s.lastGoodPolicy
  simp [Codec.Survives, StateStore.codec, Codec.get_tail, hdesired, hreported, hpolicy]

/-! ## §2 Files and requests. -/

/-- The state file and its temporary file. -/
structure StoreDisk where
  file : Option (Contents Json)
  tmp : Option (Contents Json)

inductive StoreReq
  | createDir
  | writeTmp (bytes : Json)
  | rename
  | read

/-- What an interrupted write leaves: nothing touched, or some bytes. -/
inductive StoreTear
  | untouched
  | torn
  deriving DecidableEq, Repr

def StoreReq.complete : StoreReq → StoreDisk → StoreDisk
  | .writeTmp bytes, d => { d with tmp := some (.whole bytes) }
  | .rename, d =>
      match d.tmp with
      | some c => ⟨some c, none⟩
      | none => d
  | _, d => d

def StoreReq.tear : StoreReq → StoreTear → StoreDisk → StoreDisk
  | .writeTmp _, .torn, d => { d with tmp := some .garbled }
  | _, _, d => d

def storeDevice : Device StoreReq StoreTear StoreDisk where
  complete := StoreReq.complete
  tear := StoreReq.tear

/-- A request that does not complete leaves the state file. -/
theorem tear_file (q : StoreReq) (t : StoreTear) (d : StoreDisk) : (q.tear t d).file = d.file := by
  cases q <;> cases t <;> rfl

/-! ## §3 The methods. -/

inductive StateError
  | io
  | decode
  | stale (got applied : Nat)
  deriving DecidableEq, Repr

abbrev StoreM := Method StateError StateStore StoreReq

/-- What `persist` writes. -/
def StateStore.json (s : StateStore) : Json := StateStore.codec.encode s

def persist : StoreM Unit := do
  let s ← get
  requestOr .io .createDir
  requestOr .io (.writeTmp s.json)
  requestOr .io .rename

def ingest (desired : DesiredState) : StoreM ReconcileAction := do
  let s ← get
  let action := s.reported.diff desired
  if s.isNewer desired then
    set { s with desired := some desired }
    persist
  return action

def ingestStrict (desired : DesiredState) : StoreM ReconcileAction := do
  let s ← get
  if desired.seq ≤ s.reported.appliedSeq then
    throw (.stale desired.seq s.reported.appliedSeq)
  ingest desired

def markPolicyApplied (p : Policy) (seq : Nat) : StoreM Bool := do
  let s ← get
  let (changed, reported) := s.reported.applyPolicy p seq
  set { s with reported := reported, lastGoodPolicy := p }
  persist
  return changed

/-- A message the way the agent handles it: `ingest`, then `mark_policy_applied` when the action asks
for it. Whether a policy was applied. -/
def processMessage (desired : DesiredState) : StoreM Bool := do
  match ← ingest desired with
  | .applyPolicy policy =>
      let _ ← markPolicyApplied policy desired.seq
      return true
  | _ => return false

/-- What the bytes of a state file decode to. -/
def decodeStore : Contents Json → Except StateError StateStore
  | .garbled => .error .decode
  | .whole bytes =>
      match StateStore.codec.decode bytes with
      | some s => .ok s
      | none => .error .decode

/-- `StateStore::open` on what is at the path. -/
def openStore (file : Option (Contents Json)) :
    Prog (Option StateStore) StoreReq (Except StateError StateStore) :=
  match file with
  | none => .done (.ok .fresh)
  | some contents =>
      Prog.call none .read fun
        | false => .done (.error .io)
        | true => .done (decodeStore contents)

/-- A state file that was persisted opens as the store it was written from. -/
theorem decodeStore_whole (s : StateStore) : decodeStore (.whole s.json) = .ok s := by
  have hdec : StateStore.codec.decode s.json = some s := stateStore_survives s
  show (match StateStore.codec.decode s.json with
    | some s => Except.ok s
    | none => Except.error StateError.decode) = .ok s
  rw [hdec]

/-! ## §4 What they do to the file. -/

section Rules

variable {mf : StoreReq → Prop} {R : Option StateStore → StoreDisk → Option StateStore → StoreReq → Prop}
  {s : StateStore} {prev : Option StateStore} {d : StoreDisk}

/-- `persist`: on success the state file holds the store, on an error or a crash it holds what it
held. -/
theorem method_persist {E : Option StateStore → StoreDisk → Except StateError Unit × StateStore → Prop}
    (hR : ∀ m d' q, d'.file = d.file → R m d' (some s) q)
    (hok : ∀ d', d'.file = some (.whole s.json) → E (some s) d' (.ok (), s))
    (hcut : ∀ d', d'.file = d.file → E (some s) d' (.error .io, s)) :
    MethodFollows storeDevice mf R persist E s prev d := by
  refine method_get ?_
  refine method_bind (method_requestOr (hR _ _ _ rfl) ?_ (fun _ _ => hcut _ (tear_file _ _ _)))
  refine method_bind (method_requestOr (hR _ _ _ rfl) ?_ (fun _ _ => hcut _ (tear_file _ _ _)))
  exact method_requestOr (hR _ _ _ rfl) (hok _ rfl) (fun _ _ => hcut _ (tear_file _ _ _))

/-- `ingest`: the fields become `track`, written if the message is the newest. -/
theorem method_ingest {desired : DesiredState}
    {E : Option StateStore → StoreDisk → Except StateError ReconcileAction × StateStore → Prop}
    (hR : ∀ m d' q, d'.file = d.file → R m d' (some (s.track desired)) q)
    (hsame : s.track desired = s → E prev d (.ok (s.reported.diff desired), s))
    (hok : ∀ d', d'.file = some (.whole (s.track desired).json) →
      E (some (s.track desired)) d' (.ok (s.reported.diff desired), s.track desired))
    (hcut : ∀ d', d'.file = d.file →
      E (some (s.track desired)) d' (.error .io, s.track desired)) :
    MethodFollows storeDevice mf R (ingest desired) E s prev d := by
  unfold StateStore.track at hR hsame hok hcut
  refine method_get ?_
  show MethodFollows storeDevice mf R (do
    if s.isNewer desired then
      set { s with desired := some desired }
      persist
    return s.reported.diff desired) E s prev d
  by_cases hnew : s.isNewer desired = true
  · simp only [if_pos hnew] at hR hok hcut ⊢
    exact method_bind (x := set _) (method_bind (method_persist hR hok hcut))
  · simp only [if_neg hnew] at hsame ⊢
    exact hsame trivial

/-- `mark_policy_applied`: the fields become `applied`, and are written. -/
theorem method_markPolicyApplied {p : Policy} {seq : Nat}
    {E : Option StateStore → StoreDisk → Except StateError Bool × StateStore → Prop}
    (hR : ∀ m d' q, d'.file = d.file → R m d' (some (s.applied p seq)) q)
    (hok : ∀ d', d'.file = some (.whole (s.applied p seq).json) →
      E (some (s.applied p seq)) d' (.ok (s.reported.applyPolicy p seq).1, s.applied p seq))
    (hcut : ∀ d', d'.file = d.file → E (some (s.applied p seq)) d' (.error .io, s.applied p seq)) :
    MethodFollows storeDevice mf R (markPolicyApplied p seq) E s prev d := by
  refine method_get ?_
  exact method_bind (x := set (s.applied p seq)) (method_bind (method_persist hR hok hcut))

end Rules

/-- How `ingest_strict` of `d` on store `s` can end, with result `r`, store `s'` and disk `disk'`. -/
structure StrictlyIngested (s : StateStore) (d : DesiredState) (disk : StoreDisk)
    (r : Except StateError ReconcileAction) (s' : StateStore) (disk' : StoreDisk) : Prop where
  stale : d.seq ≤ s.reported.appliedSeq →
    r = .error (.stale d.seq s.reported.appliedSeq) ∧ s' = s ∧ disk' = disk
  newer : s.reported.appliedSeq < d.seq → (r = .ok (s.reported.diff d) ∨ r = .error .io) ∧ s' = s.track d
  /-- `ingest` answers `Noop` to a stale message as well. -/
  noop : r = .ok .noop → s.reported.appliedSeq < d.seq ∧ d.policy.version = s.reported.policyVersion

/-- **`ingest_strict`, whatever fails.** A message that is not newer is refused without a request, and a newer
one is handled as by `ingest`; so `Noop` means that the version is already reported. -/
theorem ingestStrict_follows {s : StateStore} {d : DesiredState} {disk : StoreDisk} {prev : Option StateStore} :
    MethodFollows storeDevice (fun _ => True) (fun _ _ _ _ => s.reported.appliedSeq < d.seq) (ingestStrict d)
      (fun _ disk' r => StrictlyIngested s d disk r.1 r.2 disk') s prev disk := by
  refine method_get ?_
  show MethodFollows storeDevice _ _ (if d.seq ≤ s.reported.appliedSeq then _ else _) _ s prev disk
  split
  case isTrue hstale => exact ⟨fun _ => ⟨rfl, rfl, rfl⟩, fun hnewer => absurd hstale (Nat.not_le.mpr hnewer), nofun⟩
  case isFalse hfresh =>
      have hnewer : s.reported.appliedSeq < d.seq := Nat.not_le.mp hfresh
      have hanswered : ∀ disk', StrictlyIngested s d disk (.ok (s.reported.diff d)) (s.track d) disk' := by
        intro disk'
        refine ⟨fun hstale => absurd hstale hfresh, fun _ => ⟨.inl rfl, rfl⟩, ?_⟩
        intro hnoop
        refine ⟨hnewer, ?_⟩
        by_contra hne
        cases (diff_newer hnewer hne).symm.trans (Except.ok.inj hnoop)
      refine method_ingest (fun _ _ _ _ => hnewer) ?_ (fun disk' _ => hanswered disk') ?_
      · intro hsame
        have h := hanswered disk
        rw [hsame] at h
        exact h
      · intro disk' _
        exact ⟨fun hstale => absurd hstale hfresh, fun _ => ⟨.inr rfl, rfl⟩, nofun⟩

/-! ## §5 One message. -/

/-- The state file after handling desired state `d` on store `s`: as it was, or one of the two stores
that are persisted on the way. -/
def FileAfter (s : StateStore) (d : DesiredState) (before after : Option (Contents Json)) : Prop :=
  after = before ∨ after = some (.whole (s.track d).json) ∨ after = some (.whole (s.process d).json)

/-- How handling desired state `d` on store `s` can end: with result `r`, store `s'` and state file
`after`. Success means that the message was processed, and that the file holds the result or nothing
had to be written. -/
structure Handled (s : StateStore) (d : DesiredState) (before : Option (Contents Json))
    (r : Except StateError Bool) (s' : StateStore) (after : Option (Contents Json)) : Prop where
  store : s' = s.track d ∨ s' = s.process d
  file : FileAfter s d before after
  ok : ∀ b, r = .ok b →
    s' = s.process d ∧ (after = some (.whole s'.json) ∨ s' = s ∧ after = before)

theorem processMessage_follows {s : StateStore} {d : DesiredState} {disk : StoreDisk}
    {prev : Option StateStore} :
    MethodFollows storeDevice (fun _ => True)
      (fun _ disk' _ _ => FileAfter s d disk.file disk'.file) (processMessage d)
      (fun _ disk' r => Handled s d disk.file r.1 r.2 disk'.file) s prev disk := by
  -- what follows `ingest`, on the tracked store and with a state file as `ingest` leaves it
  have hrest : ∀ (prev' : Option StateStore) (disk' : StoreDisk),
      disk'.file = some (.whole (s.track d).json) ∨ s.track d = s ∧ disk'.file = disk.file →
      MethodFollows storeDevice (fun _ => True)
        (fun _ disk' _ _ => FileAfter s d disk.file disk'.file)
        (match s.reported.diff d with
          | .applyPolicy policy => do
              let _ ← markPolicyApplied policy d.seq
              return true
          | _ => return false)
        (fun _ disk' r => Handled s d disk.file r.1 r.2 disk'.file) (s.track d) prev' disk' := by
    intro prev' disk' hdisk
    have hafter : FileAfter s d disk.file disk'.file := by
      rcases hdisk with hw | ⟨_, hsame⟩
      · exact .inr (.inl hw)
      · exact .inl hsame
    cases hdiff : s.reported.diff d with
    | applyPolicy policy =>
        have hprocess : s.process d = (s.track d).applied policy d.seq := StateStore.process_applied hdiff
        refine method_bind (method_markPolicyApplied ?_ ?_ ?_)
        · intro _ d' _ hfile
          exact hfile ▸ hafter
        · intro d' hfile
          have hw : d'.file = some (.whole (s.process d).json) := hprocess ▸ hfile
          exact ⟨.inr hprocess.symm, .inr (.inr hw), fun _ _ => ⟨hprocess.symm, .inl hfile⟩⟩
        · intro d' hfile
          exact ⟨.inr hprocess.symm, hfile ▸ hafter, fun _ h => (by cases h)⟩
    | noop =>
        have hprocess : s.process d = s.track d := StateStore.process_kept (by simp [hdiff])
        exact ⟨.inl rfl, hafter, fun _ _ => ⟨hprocess.symm, hdisk⟩⟩
    | stageOta v =>
        have hprocess : s.process d = s.track d := StateStore.process_kept (by simp [hdiff])
        exact ⟨.inl rfl, hafter, fun _ _ => ⟨hprocess.symm, hdisk⟩⟩
  refine method_bind (method_ingest ?_ ?_ ?_ ?_)
  · intro _ d' _ hfile
    exact .inl hfile
  · intro hsame
    have h := hrest prev disk (.inr ⟨hsame, rfl⟩)
    rw [hsame] at h
    exact h
  · intro d' hfile
    exact hrest _ d' (.inl hfile)
  · intro d' hfile
    exact ⟨.inl rfl, .inl hfile, fun _ h => (by cases h)⟩

/-- Without a fault, `ingest` answers with the difference and leaves the fields of `track`. -/
theorem quiet_ingest (s : StateStore) (d : DesiredState) (disk : StoreDisk) :
    ∃ disk', (ingest d).quiet storeDevice s disk = ((.ok (s.reported.diff d), s.track d), disk') := by
  unfold StateStore.track ingest
  rw [Method.quiet_get]
  by_cases hnew : s.isNewer d = true
  · simp only [if_pos hnew]
    exact ⟨_, rfl⟩
  · simp only [if_neg hnew]
    exact ⟨_, rfl⟩

/-- Without a fault, a message leaves the fields of `process`. -/
theorem quiet_processMessage (s : StateStore) (d : DesiredState) (disk : StoreDisk) :
    ((processMessage d).quiet storeDevice s disk).1.2 = s.process d := by
  obtain ⟨disk', hingest⟩ := quiet_ingest s d disk
  unfold processMessage StateStore.process
  rw [Method.quiet_bind_ok hingest]
  cases s.reported.diff d <;> rfl

/-! ## §6 One message under given faults. -/

section Ends

variable {D : StoreDisk → Prop} {s : StateStore} {fs : List (Fault StoreTear)} {disk : StoreDisk}

/-- `persist` makes three requests, and the state file changes with the last. -/
theorem ends_persist
    {E : List (Fault StoreTear) → StoreDisk → Except StateError Unit × StateStore → Prop}
    (hok : firstFault 3 fs = .ok → ∀ d', d'.file = some (.whole s.json) → E (fs.drop 3) d' (.ok (), s))
    (hfail : ∀ t, firstFault 3 fs = .fail t → ∀ fs' d', d'.file = disk.file → E fs' d' (.error .io, s))
    (hdie : ∀ t, firstFault 3 fs = .die t → ∀ d', d'.file = disk.file → D d') :
    MethodEnds storeDevice D persist E s fs disk := by
  refine method_ends_get ?_
  refine method_ends_bind (method_ends_requestOr (fun h₁ => ?_) (fun t h => ?_) (fun t h => ?_))
  · refine method_ends_bind (method_ends_requestOr (fun h₂ => ?_) (fun t h => ?_) (fun t h => ?_))
    · refine method_ends_requestOr (fun h₃ => ?_) (fun t h => ?_) (fun t h => ?_)
      · have hdrop : fs.tail.tail.tail = fs.drop 3 := by simp only [← List.drop_one, List.drop_drop]
        exact hdrop ▸ hok (by simp only [firstFault, h₁, h₂, h₃]) _ rfl
      · exact hfail t (by simp only [firstFault, h₁, h₂, h]) _ _ (tear_file _ _ _)
      · exact hdie t (by simp only [firstFault, h₁, h₂, h]) _ (tear_file _ _ _)
    · exact hfail t (by simp only [firstFault, h₁, h]) _ _ (tear_file _ _ _)
    · exact hdie t (by simp only [firstFault, h₁, h]) _ (tear_file _ _ _)
  · exact hfail t (by simp only [firstFault, h]) _ _ (tear_file _ _ _)
  · exact hdie t (by simp only [firstFault, h]) _ (tear_file _ _ _)

end Ends

/-- The fault that the write of `ingest` meets; a message that is not the newest is not written. -/
def ingestFault (s : StateStore) (d : DesiredState) (fs : List (Fault StoreTear)) : Fault StoreTear :=
  if s.isNewer d then firstFault 3 fs else .ok

/-- The fault that the write of `mark_policy_applied` meets when `ingest` has succeeded. -/
def markFault (s : StateStore) (d : DesiredState) (fs : List (Fault StoreTear)) : Fault StoreTear :=
  firstFault 3 (if s.isNewer d then fs.drop 3 else fs)

/-- The state file after a successful `ingest`. -/
def trackedFile (s : StateStore) (d : DesiredState) (before : Option (Contents Json)) :
    Option (Contents Json) :=
  if s.isNewer d then some (.whole (s.track d).json) else before

/-- **Every way in which the handling of message `d` on store `s` returns under faults `fs`**: with a
result, a store, and a state file that was `before`. -/
inductive Returns (s : StateStore) (d : DesiredState) (fs : List (Fault StoreTear))
    (before : Option (Contents Json)) :
    Except StateError Bool → StateStore → Option (Contents Json) → Prop
  | ingestFailed {t : StoreTear} : ingestFault s d fs = .fail t →
      Returns s d fs before (.error .io) (s.track d) before
  | kept : ingestFault s d fs = .ok → (∀ p, s.reported.diff d ≠ .applyPolicy p) →
      Returns s d fs before (.ok false) (s.track d) (trackedFile s d before)
  | markFailed {p : Policy} {t : StoreTear} : ingestFault s d fs = .ok →
      s.reported.diff d = .applyPolicy p → markFault s d fs = .fail t →
      Returns s d fs before (.error .io) (s.process d) (trackedFile s d before)
  | applied {p : Policy} : ingestFault s d fs = .ok → s.reported.diff d = .applyPolicy p →
      markFault s d fs = .ok →
      Returns s d fs before (.ok true) (s.process d) (some (.whole (s.process d).json))

theorem ends_ingest {D : StoreDisk → Prop} {s : StateStore} {d : DesiredState}
    {fs : List (Fault StoreTear)} {disk : StoreDisk}
    {E : List (Fault StoreTear) → StoreDisk → Except StateError ReconcileAction × StateStore → Prop}
    (hok : ingestFault s d fs = .ok → ∀ d', d'.file = trackedFile s d disk.file →
      E (if s.isNewer d then fs.drop 3 else fs) d' (.ok (s.reported.diff d), s.track d))
    (hfail : ∀ t, ingestFault s d fs = .fail t → ∀ fs' d', d'.file = disk.file →
      E fs' d' (.error .io, s.track d))
    (hdie : ∀ t, ingestFault s d fs = .die t → ∀ d', d'.file = disk.file → D d') :
    MethodEnds storeDevice D (ingest d) E s fs disk := by
  unfold ingestFault at hok hfail hdie
  unfold trackedFile StateStore.track at hok
  unfold StateStore.track at hfail
  refine method_ends_get ?_
  show MethodEnds storeDevice D (do
    if s.isNewer d then
      set { s with desired := some d }
      persist
    return s.reported.diff d) E s fs disk
  by_cases hnew : s.isNewer d = true
  · simp only [if_pos hnew] at hok hfail hdie ⊢
    exact method_ends_bind (x := set _) (method_ends_bind (ends_persist hok hfail hdie))
  · simp only [if_neg hnew] at hok ⊢
    exact hok trivial disk rfl

theorem processMessage_ends (s : StateStore) (d : DesiredState) (fs : List (Fault StoreTear))
    (disk : StoreDisk) :
    MethodEnds storeDevice (fun _ => True) (processMessage d)
      (fun _ disk' r => Returns s d fs disk.file r.1 r.2 disk'.file) s fs disk := by
  refine method_ends_bind (ends_ingest ?_ ?_ (fun _ _ _ _ => trivial))
  · intro hingest disk' hfile
    show MethodEnds storeDevice (fun _ => True)
      (match s.reported.diff d with
        | .applyPolicy policy => do
            let _ ← markPolicyApplied policy d.seq
            return true
        | _ => return false) _ (s.track d) (if s.isNewer d then fs.drop 3 else fs) disk'
    cases hdiff : s.reported.diff d with
    | applyPolicy policy =>
        have hprocess : (s.track d).applied policy d.seq = s.process d :=
          (StateStore.process_applied hdiff).symm
        refine method_ends_bind (method_ends_get (method_ends_bind (x := set _)
          (method_ends_bind (ends_persist ?_ ?_ (fun _ _ _ _ => trivial)))))
        · intro hmark d' hfile'
          have hwritten : d'.file = some (.whole (s.process d).json) := hprocess ▸ hfile'
          show Returns s d fs disk.file (.ok true) ((s.track d).applied policy d.seq) d'.file
          rw [hprocess, hwritten]
          exact .applied hingest hdiff hmark
        · intro t hmark fs' d' hfile'
          show Returns s d fs disk.file (.error .io) ((s.track d).applied policy d.seq) d'.file
          rw [hprocess, hfile'.trans hfile]
          exact .markFailed hingest hdiff hmark
    | noop =>
        show Returns s d fs disk.file (.ok false) (s.track d) disk'.file
        rw [hfile]
        exact .kept hingest fun p hp => by simp [hdiff] at hp
    | stageOta v =>
        show Returns s d fs disk.file (.ok false) (s.track d) disk'.file
        rw [hfile]
        exact .kept hingest fun p hp => by simp [hdiff] at hp
  · intro t hingest fs' d' hfile
    show Returns s d fs disk.file (.error .io) (s.track d) d'.file
    rw [hfile]
    exact .ingestFailed hingest

end Edgewarden.State
