/-
# Edgewarden.Health.Supervisor — `edge-health/src/lib.rs`: evaluation, bypass commands, the relay.

The supervisor decides from a CACHED flag whether to issue a bypass command at all. A command that fails
or times out leaves the flag, but it may have moved the relay before it failed. The relay is then where
the flag does not say, and as long as the flag agrees with the health of the proxy nothing is done about
it.

* §1 is the source: `evaluate`, `run`, the two commands, `maybe_actuate`, with the physical relay beside
  the flag. A command that succeeds moves it; whether any other one did is up to the environment.
* `relay_agrees_iff`: when `maybe_actuate` has returned `Ok` on a proxy that is healthy or dead, the relay
  is where it should be if and only if no failed command has moved it since the last one that succeeded.
  `traffic_left_unfiltered` is a run of two steps in which one has.
* `cloud_loss_never_bypasses`: only the death of the proxy enables bypass, and a run cannot be told from
  one in which the control plane was connected at other times.
-/
import Edgewarden.Lib.Float
import Edgewarden.Lib.Machine
import Edgewarden.Lib.Text

namespace Edgewarden.Health

open Edgewarden.Calls Edgewarden.Serde Edgewarden.Text

/-! ## §1 The supervisor and its bypass controller. -/

inductive HealthError
  | probe (text : String)
  | bypass (text : String)
  deriving DecidableEq, Repr

inductive HealthState
  | unknown
  | healthy
  | degraded
  | unhealthy
  deriving DecidableEq, Repr

structure SupervisorInput where
  proxyAlive : Bool
  controlPlaneConnected : Bool
  cpuUsage : F64
  memoryBytes : UInt64
  memoryLimitBytes : UInt64
  activeConnections : UInt64
  softwareVersion : String
  policyVersion : UInt64
  consecutiveProxyFailures : UInt32
  deriving DecidableEq, Repr

/-- `Supervisor`, without its controller (see `Site`) and its watchdog timeout. -/
structure Supervisor where
  maxCpu : F64
  deriving DecidableEq, Repr

def Supervisor.evaluate (sup : Supervisor) (input : SupervisorInput) : HealthState :=
  if !input.proxyAlive || 5 ≤ input.consecutiveProxyFailures then .unhealthy
  -- an IEEE comparison: a load that is NaN is above no limit
  else if sup.maxCpu.lt input.cpuUsage then .degraded
  else if 0 < input.memoryLimitBytes ∧ input.memoryLimitBytes < input.memoryBytes then .degraded
  else .healthy

/-- What becomes of a shell command within its timeout. The texts are those of the operating system. -/
inductive Outcome
  | success
  | exited (status stderr : String)
  | spawnFailed (e : String)
  | timedOut
  deriving DecidableEq, Repr

/-- `ExecBypassController::run`. -/
def run (action : String) : Outcome → Except HealthError Unit
  | .timedOut => .error (.bypass s!"{action} command timed out")
  | .spawnFailed e => .error (.bypass s!"{action} spawn failed: {e}")
  | .success => .ok ()
  | .exited status stderr =>
      .error (.bypass s!"{action} exited {status}: {String.ofList (trim stderr.toList)}")

/-- The two commands of a `BypassController`. -/
inductive Command
  | enable
  | disable
  deriving DecidableEq, Repr

def Command.action : Command → String
  | .enable => "enable-bypass"
  | .disable => "disable-bypass"

/-- The position a command asks for. -/
def Command.bypasses : Command → Bool
  | .enable => true
  | .disable => false

/-- The cached flag of `ExecBypassController` and, beside it, whether the physical relay is in bypass. -/
structure Site where
  enabled : Bool
  relay : Bool
  deriving DecidableEq, Repr

/-- What the environment makes of a command: its outcome and, if that is not success, whether the relay
moved all the same. -/
structure Attempt where
  outcome : Outcome
  moved : Bool
  deriving DecidableEq, Repr

/-- Both commands store the flag only after `run(..)?`. -/
def Command.issue (cmd : Command) (a : Attempt) (w : Site) : Except HealthError Unit × Site :=
  match run cmd.action a.outcome with
  | .ok () => (.ok (), ⟨cmd.bypasses, cmd.bypasses⟩)
  | .error e => (.error e, { w with relay := if a.moved then cmd.bypasses else w.relay })

def enableBypass : Attempt → Site → Except HealthError Unit × Site := Command.enable.issue

def disableBypass : Attempt → Site → Except HealthError Unit × Site := Command.disable.issue

def maybeActuate (state : HealthState) (input : SupervisorInput) (failOpenOnProxyDeath : Bool)
    (a : Attempt) (w : Site) : Except HealthError Unit × Site :=
  -- both guards read the flag; nothing reads the relay
  if state = .unhealthy ∧ input.proxyAlive = false ∧ failOpenOnProxyDeath = true ∧ w.enabled = false then
    enableBypass a w
  else if state = .healthy ∧ w.enabled = true then disableBypass a w
  else (.ok (), w)

/-! ## §2 Rounds. -/

/-- One round of the supervisor: what it is told, and what a command would come to. -/
structure Tick where
  input : SupervisorInput
  failOpen : Bool
  attempt : Attempt
  deriving DecidableEq, Repr

/-- `evaluate`, then `maybe_actuate`. -/
def Supervisor.tick (sup : Supervisor) (w : Site) (t : Tick) : Except HealthError Unit × Site :=
  maybeActuate (sup.evaluate t.input) t.input t.failOpen t.attempt w

/-- A new controller, with the relay where the flag says. -/
def Supervisor.machine (sup : Supervisor) : Machine Site Tick (Except HealthError Unit) where
  init := ⟨false, false⟩
  step := sup.tick

/-! ## §3 What a round can do. -/

section Rounds

variable {sup : Supervisor} {t : Tick} {w : Site}

theorem evaluate_dead {input : SupervisorInput} (h : input.proxyAlive = false) :
    sup.evaluate input = .unhealthy := by
  simp [Supervisor.evaluate, h]

theorem run_ok_iff {action : String} {o : Outcome} : run action o = .ok () ↔ o = .success := by
  cases o <;> simp [run]

/-- The command that a round issues, if it issues one. -/
def Supervisor.command (sup : Supervisor) (t : Tick) (w : Site) : Option Command :=
  if sup.evaluate t.input = .unhealthy ∧ t.input.proxyAlive = false ∧ t.failOpen = true ∧
      w.enabled = false then
    some .enable
  else if sup.evaluate t.input = .healthy ∧ w.enabled = true then some .disable
  else none

theorem tick_eq (sup : Supervisor) (t : Tick) (w : Site) :
    sup.tick w t =
      match sup.command t w with
      | some cmd => cmd.issue t.attempt w
      | none => (.ok (), w) := by
  unfold Supervisor.tick maybeActuate Supervisor.command
  split
  · rfl
  · split <;> rfl

/-- A command always asks for the other position. -/
theorem command_bypasses {cmd : Command} (h : sup.command t w = some cmd) : cmd.bypasses = !w.enabled := by
  unfold Supervisor.command at h
  split at h
  · rename_i hc
    cases h
    simp [Command.bypasses, hc.2.2.2]
  · split at h
    · rename_i hc
      cases h
      simp [Command.bypasses, hc.2]
    · cases h

/-- **Everything a round can do.** -/
theorem tick_cases (sup : Supervisor) (t : Tick) (w : Site) :
    (sup.command t w = none ∧ sup.tick w t = (.ok (), w)) ∨
      ∃ cmd, sup.command t w = some cmd ∧ cmd.bypasses = (!w.enabled) ∧
        ((t.attempt.outcome = .success ∧ sup.tick w t = (.ok (), ⟨cmd.bypasses, cmd.bypasses⟩)) ∨
          (t.attempt.outcome ≠ .success ∧ ∃ e, sup.tick w t =
            (.error e, { w with relay := if t.attempt.moved then cmd.bypasses else w.relay }))) := by
  rw [tick_eq]
  cases hcmd : sup.command t w with
  | none => exact .inl ⟨rfl, rfl⟩
  | some cmd =>
      refine .inr ⟨cmd, rfl, command_bypasses hcmd, ?_⟩
      show (_ ∧ cmd.issue t.attempt w = _) ∨ (_ ∧ ∃ e, cmd.issue t.attempt w = _)
      unfold Command.issue
      cases hrun : run cmd.action t.attempt.outcome with
      | ok _ => exact .inl ⟨run_ok_iff.mp hrun, rfl⟩
      | error e =>
          refine .inr ⟨?_, e, rfl⟩
          intro hsuccess
          rw [run_ok_iff.mpr hsuccess] at hrun
          cases hrun

end Rounds

/-! ## §4 Where the relay is. -/

section Runs

variable {sup : Supervisor} {ticks : List Tick} {t : Tick}

/-- A command that did not succeed and moved the relay. -/
def Strays (sup : Supervisor) (before : List Tick) (t : Tick) : Prop :=
  (sup.command t (sup.machine.after before)).isSome = true ∧ t.attempt.outcome ≠ .success ∧
    t.attempt.moved = true

/-- A command that succeeded. -/
def Succeeds (sup : Supervisor) (before : List Tick) (t : Tick) : Prop :=
  (sup.command t (sup.machine.after before)).isSome = true ∧ t.attempt.outcome = .success

/-- A failed command has moved the relay, and no command has succeeded since. -/
def Strayed (sup : Supervisor) (ticks : List Tick) : Prop := Outstanding (Strays sup) (Succeeds sup) ticks

/-- **The flag is wrong exactly while a failed command is not made up for.** -/
theorem relay_ne_iff_strayed (sup : Supervisor) (ticks : List Tick) :
    (sup.machine.after ticks).relay ≠ (sup.machine.after ticks).enabled ↔ Strayed sup ticks := by
  induction ticks using List.reverseRecOn with
  | nil => simp [Strayed, not_outstanding_nil, Machine.after, Supervisor.machine]
  | append_singleton ticks t ih =>
      rw [Strayed] at ih ⊢
      rw [outstanding_snoc, ← ih, Machine.after_snoc]
      show (sup.tick (sup.machine.after ticks) t).2.relay ≠ (sup.tick (sup.machine.after ticks) t).2.enabled ↔ _
      unfold Strays Succeeds
      generalize sup.machine.after ticks = w
      rcases tick_cases sup t w with ⟨hcmd, htick⟩ |
          ⟨cmd, hcmd, hother, ⟨hok, htick⟩ | ⟨hfail, e, htick⟩⟩
      · simp [hcmd, htick]
      · simp [hcmd, htick, hok]
      · cases hmoved : t.attempt.moved <;> simp [hcmd, htick, hfail, hmoved, hother]

/-- The input says where the relay belongs. -/
def Decisive (sup : Supervisor) (t : Tick) : Prop :=
  sup.evaluate t.input = .healthy ∨ t.input.proxyAlive = false

/-- The relay is where the input says: not in bypass for a healthy proxy, in bypass for a dead one. -/
structure RelayRight (sup : Supervisor) (t : Tick) (w : Site) : Prop where
  healthy : sup.evaluate t.input = .healthy → w.relay = false
  dead : t.input.proxyAlive = false → w.relay = true

/-- A round that returns `Ok` leaves the flag where the input says. -/
theorem tick_ok_enabled {w : Site} (hopen : t.failOpen = true) (hok : (sup.tick w t).1 = .ok ()) :
    (sup.evaluate t.input = .healthy → (sup.tick w t).2.enabled = false) ∧
      (t.input.proxyAlive = false → (sup.tick w t).2.enabled = true) := by
  rcases tick_cases sup t w with ⟨hcmd, htick⟩ | ⟨cmd, hcmd, hother, ⟨_, htick⟩ | ⟨_, e, htick⟩⟩
  · -- no command: the flag agrees already
    rw [htick]
    constructor
    · intro hhealthy
      by_contra hen
      simp [Supervisor.command, hhealthy, hen] at hcmd
    · intro hdead
      by_contra hen
      simp [Supervisor.command, evaluate_dead hdead, hdead, hopen, hen] at hcmd
  · rw [htick]
    unfold Supervisor.command at hcmd
    constructor
    · intro hhealthy
      simp only [hhealthy, reduceCtorEq, false_and, if_false, true_and] at hcmd
      split at hcmd
      · cases hcmd
        rfl
      · cases hcmd
    · intro hdead
      simp only [evaluate_dead hdead, hdead, hopen, reduceCtorEq, false_and, if_false, true_and] at hcmd
      split at hcmd
      · cases hcmd
        rfl
      · cases hcmd
  · rw [htick] at hok
    cases hok

/-- **Relay agreement.** In every run of the supervisor, with any outcomes of its commands: after a round
with fail-open set whose `maybe_actuate` returned `Ok`, the relay is where the input says if and only if
the input does not say, or no failed command has moved the relay since the last one that succeeded. -/
theorem relay_agrees_iff (sup : Supervisor) (ticks : List Tick) (t : Tick) (hopen : t.failOpen = true)
    (hok : sup.machine.answer ticks t = .ok ()) :
    RelayRight sup t (sup.machine.after (ticks ++ [t])) ↔
      (Decisive sup t → ¬ Strayed sup (ticks ++ [t])) := by
  obtain ⟨hhealthy, hdead⟩ := tick_ok_enabled (w := sup.machine.after ticks) hopen hok
  rw [← relay_ne_iff_strayed, not_not]
  have hafter : sup.machine.after (ticks ++ [t]) = (sup.tick (sup.machine.after ticks) t).2 :=
    sup.machine.after_snoc ticks t
  rw [← hafter] at hhealthy hdead
  constructor
  · rintro hright (h | h)
    · rw [hright.healthy h, hhealthy h]
    · rw [hright.dead h, hdead h]
  · intro hagree
    exact ⟨fun h => (hagree (.inl h)).trans (hhealthy h), fun h => (hagree (.inr h)).trans (hdead h)⟩

end Runs

/-- What the supervisor is told about a proxy that is alive, or dead, and otherwise well. -/
def plainInput (alive : Bool) : SupervisorInput where
  proxyAlive := alive
  controlPlaneConnected := true
  cpuUsage := F64.zero
  memoryBytes := 0
  memoryLimitBytes := 0
  activeConnections := 0
  softwareVersion := ""
  policyVersion := 0
  consecutiveProxyFailures := 0

/-- A CPU limit of one half. -/
def halfLoad : Supervisor := ⟨⟨0x3FE0000000000000⟩⟩

/-- The proxy dies and comes back; the first disable command moves the relay and times out, the second succeeds. -/
def madeUpFor : List Tick :=
  [⟨plainInput false, true, ⟨.success, true⟩⟩, ⟨plainInput true, true, ⟨.timedOut, true⟩⟩,
    ⟨plainInput true, true, ⟨.success, true⟩⟩]

/-- The flag is wrong after the second round, and the relay is right when the proxy dies again. -/
theorem relay_agrees_proxyDeath :
    halfLoad.machine.after (madeUpFor.take 2) = ⟨true, false⟩ ∧
      RelayRight halfLoad ⟨plainInput false, true, ⟨.success, true⟩⟩
        (halfLoad.machine.after (madeUpFor ++ [⟨plainInput false, true, ⟨.success, true⟩⟩])) := by
  refine ⟨by decide +kernel, (relay_agrees_iff halfLoad madeUpFor _ rfl (by decide +kernel)).mpr ?_⟩
  intro _ hstrayed
  exact (relay_ne_iff_strayed halfLoad _).mpr hstrayed (by decide +kernel)

/-- The proxy dies, the enable command moves the relay and times out, the proxy comes back. -/
def flakyRelay : List Tick := [⟨plainInput false, true, ⟨.timedOut, true⟩⟩]

/-- The evaluation is `Healthy` and `maybe_actuate` returns `Ok` without a command, because the flag was
never set; the relay is in bypass. -/
theorem traffic_left_unfiltered :
    halfLoad.evaluate (plainInput true) = .healthy ∧
      halfLoad.machine.answer flakyRelay ⟨plainInput true, true, ⟨.success, true⟩⟩ = .ok () ∧
      ¬ RelayRight halfLoad ⟨plainInput true, true, ⟨.success, true⟩⟩
        (halfLoad.machine.after (flakyRelay ++ [⟨plainInput true, true, ⟨.success, true⟩⟩])) := by
  refine ⟨by decide +kernel, by decide +kernel, ?_⟩
  intro hright
  have hoff := hright.healthy (by decide +kernel)
  have hon : (halfLoad.machine.after
      (flakyRelay ++ [⟨plainInput true, true, ⟨.success, true⟩⟩])).relay = true := by
    decide +kernel
  rw [hon] at hoff
  cases hoff

/-! ## §5 The control plane.

The comment on `maybe_actuate` promises that the loss of the control plane alone never triggers bypass. -/

section Cloud

variable {sup : Supervisor} {t t' : Tick} {w : Site} {ticks ticks' : List Tick}

/-- Two rounds that differ at most in what the control plane sees and says of the device. -/
structure SameButCloud (t t' : Tick) : Prop where
  proxyAlive : t.input.proxyAlive = t'.input.proxyAlive
  cpuUsage : t.input.cpuUsage = t'.input.cpuUsage
  memoryBytes : t.input.memoryBytes = t'.input.memoryBytes
  memoryLimitBytes : t.input.memoryLimitBytes = t'.input.memoryLimitBytes
  consecutiveProxyFailures : t.input.consecutiveProxyFailures = t'.input.consecutiveProxyFailures
  failOpen : t.failOpen = t'.failOpen
  attempt : t.attempt = t'.attempt

theorem evaluate_sameButCloud (h : SameButCloud t t') : sup.evaluate t.input = sup.evaluate t'.input := by
  unfold Supervisor.evaluate
  rw [h.proxyAlive, h.cpuUsage, h.memoryBytes, h.memoryLimitBytes, h.consecutiveProxyFailures]

theorem command_sameButCloud (w : Site) (h : SameButCloud t t') : sup.command t w = sup.command t' w := by
  unfold Supervisor.command
  rw [evaluate_sameButCloud h, h.proxyAlive, h.failOpen]

theorem tick_sameButCloud (w : Site) (h : SameButCloud t t') : sup.tick w t = sup.tick w t' := by
  rw [tick_eq, tick_eq, command_sameButCloud w h, h.attempt]

/-- The guard of the enable command. -/
theorem command_enable (h : sup.command t w = some .enable) :
    t.input.proxyAlive = false ∧ t.failOpen = true ∧ w.enabled = false := by
  unfold Supervisor.command at h
  split at h
  · rename_i hguard
    exact hguard.2
  · split at h <;> cases h

/-- A round that changes the flag has issued the command for it, with success. -/
theorem tick_enabled_ne (h : (sup.tick w t).2.enabled ≠ w.enabled) :
    ∃ cmd, sup.command t w = some cmd ∧ t.attempt.outcome = .success ∧
      (sup.tick w t).2.enabled = cmd.bypasses := by
  rcases tick_cases sup t w with ⟨_, htick⟩ | ⟨cmd, hcmd, _, ⟨hok, htick⟩ | ⟨_, e, htick⟩⟩
  · rw [htick] at h
    exact absurd rfl h
  · exact ⟨cmd, hcmd, hok, by rw [htick]⟩
  · rw [htick] at h
    exact absurd rfl h

/-- With the flag off and the proxy alive there is nothing to do. -/
theorem tick_alive (halive : t.input.proxyAlive = true) (hoff : w.enabled = false) :
    sup.tick w t = (.ok (), w) := by
  have hcmd : sup.command t w = none := by simp [Supervisor.command, halive, hoff]
  rw [tick_eq, hcmd]

theorem after_alive (halive : ∀ t ∈ ticks, t.input.proxyAlive = true) :
    sup.machine.after ticks = ⟨false, false⟩ := by
  have hstep : ∀ w (t : Tick), t.input.proxyAlive = true → w = ⟨false, false⟩ →
      (sup.machine.step w t).2 = ⟨false, false⟩ := by
    rintro w t ht rfl
    exact congrArg Prod.snd (tick_alive ht rfl)
  have h : sup.machine.after ([] ++ ticks) = ⟨false, false⟩ := sup.machine.keeps hstep halive rfl
  exact h

/-- What a round after the rounds `ticks` does about bypass. -/
structure CloudBlind (sup : Supervisor) (ticks : List Tick) (t : Tick) : Prop where
  enables : sup.command t (sup.machine.after ticks) = some .enable →
    t.input.proxyAlive = false ∧ t.failOpen = true ∧ (sup.machine.after ticks).enabled = false
  changes : (sup.machine.after (ticks ++ [t])).enabled ≠ (sup.machine.after ticks).enabled →
    ∃ cmd, sup.command t (sup.machine.after ticks) = some cmd ∧ t.attempt.outcome = .success ∧
      (sup.machine.after (ticks ++ [t])).enabled = cmd.bypasses
  alive : (∀ s ∈ ticks ++ [t], s.input.proxyAlive = true) →
    sup.command t (sup.machine.after ticks) = none ∧ sup.machine.after (ticks ++ [t]) = ⟨false, false⟩
  /-- Health, command, reply and flag are those of any run that differs in the control plane only. -/
  blind : ∀ ticks' t', List.Forall₂ SameButCloud ticks ticks' → SameButCloud t t' →
    sup.evaluate t.input = sup.evaluate t'.input ∧
      sup.command t (sup.machine.after ticks) = sup.command t' (sup.machine.after ticks') ∧
      sup.machine.answer ticks t = sup.machine.answer ticks' t' ∧
      sup.machine.after (ticks ++ [t]) = sup.machine.after (ticks' ++ [t'])

/-- **Cloud loss never actuates bypass.** In every run of the supervisor, with any fail-open setting in each
round and any outcomes of the commands: the enable command is issued for a dead proxy only, with fail-open
set and the flag off; the flag follows the commands that succeed; as long as the proxy is alive nothing
happens; and no round depends on the control plane. -/
theorem cloud_loss_never_bypasses (sup : Supervisor) (ticks : List Tick) (t : Tick) :
    CloudBlind sup ticks t where
  enables := command_enable
  changes := by
    rw [sup.machine.after_snoc]
    exact tick_enabled_ne
  alive := by
    intro halive
    refine ⟨?_, after_alive halive⟩
    rw [after_alive fun s hs => halive s (List.mem_append_left _ hs)]
    simp [Supervisor.command, halive t (by simp)]
  blind := by
    intro ticks' t' hbefore ht
    have hafter : sup.machine.after ticks = sup.machine.after ticks' :=
      sup.machine.after_congr (fun w _ _ hsame => tick_sameButCloud w hsame) hbefore
    refine ⟨evaluate_sameButCloud ht, ?_, ?_, ?_⟩
    · rw [hafter]
      exact command_sameButCloud _ ht
    · show (sup.tick _ t).1 = (sup.tick _ t').1
      rw [hafter, tick_sameButCloud _ ht]
    · rw [sup.machine.after_snoc, sup.machine.after_snoc, hafter]
      exact congrArg Prod.snd (tick_sameButCloud _ ht)

end Cloud

/-- A round with the control plane connected or not. -/
def cloudTick (alive connected : Bool) (outcome : Outcome) : Tick :=
  ⟨{ plainInput alive with controlPlaneConnected := connected }, true, ⟨outcome, false⟩⟩

theorem cloudTick_sameButCloud (alive connected connected' : Bool) (outcome : Outcome) :
    SameButCloud (cloudTick alive connected outcome) (cloudTick alive connected' outcome) :=
  ⟨rfl, rfl, rfl, rfl, rfl, rfl, rfl⟩

/-- The proxy is alive, dies, and the enable command fails once. -/
def cloudRun (connected : Bool) : List Tick :=
  [cloudTick true connected .success, cloudTick false connected .timedOut]

/-- The next command is the same, whether the control plane was lost at the beginning or is there throughout. -/
theorem cloud_loss_deadProxy :
    halfLoad.command (cloudTick false true .success) (halfLoad.machine.after (cloudRun true)) = some .enable ∧
      halfLoad.command (cloudTick false true .success) (halfLoad.machine.after (cloudRun true)) =
        halfLoad.command (cloudTick false false .success) (halfLoad.machine.after (cloudRun false)) := by
  refine ⟨by decide +kernel, ?_⟩
  have hbefore : List.Forall₂ SameButCloud (cloudRun true) (cloudRun false) :=
    .cons (cloudTick_sameButCloud _ _ _ _) (.cons (cloudTick_sameButCloud _ _ _ _) .nil)
  exact ((cloud_loss_never_bypasses halfLoad (cloudRun true) (cloudTick false true .success)).blind _ _
    hbefore (cloudTick_sameButCloud _ _ _ _)).2.1

end Edgewarden.Health
