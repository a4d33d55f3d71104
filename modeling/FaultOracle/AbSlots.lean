import FaultOracle.GuardedRuns
import FaultOracle.UBootEnv

/-!
# The A/B slots over boots and commands

`ab-partition-setup.sh` changes the same variables from Linux that the scripts of U-Boot
change at boot: it marks a slot pending, active or failed, sets `bootlimit`, or switches.
A run interleaves its modes with boot attempts and with `verify_boot`, in any order, from
the environment as shipped.

`SlotsSafe` is what the state machine is for: the selected slot is not a failed one while
the other would do, a slot that has failed is neither fallen back to nor forgiven, and when
both have failed the recovery boot is taken.  `slotsSafe_iff` names the runs which keep
it.  The whole difference lies in two places, `ab_fallback` and `--mark-failed`, which turn
to the other slot without looking at its state; and nothing ever runs `recoveryboot`.
-/

namespace FaultOracle.Boot

open GuardedRuns

/-! ## The modes of `ab-partition-setup.sh` -/

/-- `validate_partition`. -/
def validatePartition (part : String) : Option Slot :=
  if part = "A" then some .A else if part = "B" then some .B else none

/-- A decimal or octal constant of bash arithmetic, which wraps like an `intmax_t`; an
octal constant with a digit above 7 is an error. -/
def bashInteger (digits : List Char) : Option Int :=
  let value (base : Nat) : Int :=
    Int.bmod (digits.foldl (fun n c => n * base + (c.toNat - '0'.toNat : Nat)) 0) (2 ^ 64)
  match digits with
  | '0' :: _ :: _ => if digits.all (fun c => c < '8') then some (value 8) else none
  | _ => some (value 10)

/-- The check of `mode_set_bootlimit`.  A constant which bash cannot read makes the
arithmetic command fail, and so passes. -/
def bootlimitRejected (limit : String) : Bool :=
  !(limit.toList.all Char.isDigit && limit.toList ≠ []) ||
    match bashInteger limit.toList with
    | some n => n < 1 || n > 10
    | none => false

/-- A line of output, by the helper that prints it. -/
inductive Line
  | info (text : String)
  | error (text : String)
  | warn (text : String)
  | pass (text : String)
  | fail (text : String)
deriving DecidableEq, Repr

/-- What a call of the script finds around it: `--dry-run`, whether `fw_printenv` is
installed, and the slot that the kernel command line tells. -/
structure Host where
  dryRun : Bool
  fwTools : Bool
  cmdlineSlot : String

/-- `check_fw_env`. -/
def checkFwEnv (host : Host) (env : Env) : Bool := host.fwTools && (env "bootcount").isSome

/-- `uenv_set`. -/
def uenvSet (host : Host) (env : Env) (var val : String) : Env :=
  if host.dryRun then env else setenv env var val

/-- The environment a call leaves, its output and its exit status. -/
structure ModeResult where
  env : Env
  lines : List Line
  status : Nat

def invalidPartition (env : Env) (part : String) : ModeResult where
  env := env
  lines := [.error s!"Invalid partition '{part}'. Must be 'A' or 'B'."]
  status := 1

/-- `mode_mark_pending`. -/
def modeMarkPending (host : Host) (env : Env) (part : String) : ModeResult :=
  match validatePartition part with
  | none => invalidPartition env part
  | some slot =>
      let said := Line.info s!"Marking slot {part} as 'pending' (next boot will attempt it)"
      if checkFwEnv host env then
        let env := uenvSet host env slot.stateVar "pending"
        let env := uenvSet host env "bootslot" slot.name
        let env := uenvSet host env "bootcount" "0"
        { env := env, status := 0
          lines := [said, .pass s!"Slot {part} marked as pending. Reboot to activate."] }
      else
        { env := env, status := 2
          lines := [said, .fail "Cannot mark pending — fw_setenv not available"] }

/-- `mode_mark_active`. -/
def modeMarkActive (host : Host) (env : Env) (part : String) : ModeResult :=
  match validatePartition part with
  | none => invalidPartition env part
  | some slot =>
      let said := Line.info s!"Marking slot {part} as 'active' — confirming successful boot"
      if checkFwEnv host env then
        let env := uenvSet host env slot.stateVar "active"
        let env := uenvSet host env "bootcount" "0"
        let done := Line.pass s!"Slot {part} marked as active. bootcount reset to 0."
        if expand env slot.other.stateVar ≠ "failed" then
          { env := uenvSet host env slot.other.stateVar "standby", status := 0
            lines := [said, .info s!"Slot {slot.other.name} set to 'standby'", done] }
        else { env := env, status := 0, lines := [said, done] }
      else
        { env := env, status := 2
          lines := [said, .fail "Cannot mark active — fw_setenv not available"] }

/-- `mode_mark_failed`. -/
def modeMarkFailed (host : Host) (env : Env) (part : String) : ModeResult :=
  match validatePartition part with
  | none => invalidPartition env part
  | some slot =>
      let said := Line.warn s!"Marking slot {part} as 'failed' — will not be selected for boot"
      if checkFwEnv host env then
        let env := uenvSet host env slot.stateVar "failed"
        let done := Line.fail
          s!"Slot {part} marked as failed. System will use slot {slot.other.name}."
        if expand env "bootslot" = part then
          let env := uenvSet host env "bootslot" slot.other.name
          let env := uenvSet host env "bootcount" "0"
          { env := env, status := 0
            lines :=
              [said, .info s!"Switching bootslot from {part} to {slot.other.name}", done] }
        else { env := env, status := 0, lines := [said, done] }
      else
        { env := env, status := 2
          lines := [said, .fail "Cannot mark failed — fw_setenv not available"] }

/-- `mode_set_bootlimit`. -/
def modeSetBootlimit (host : Host) (env : Env) (limit : String) : ModeResult :=
  if bootlimitRejected limit then
    { env := env, status := 1
      lines := [.error s!"bootlimit must be an integer between 1 and 10, got: {limit}"] }
  else if checkFwEnv host env then
    { env := uenvSet host env "bootlimit" limit, status := 0
      lines := [.info s!"Setting bootlimit to {limit}", .pass s!"bootlimit set to {limit}"] }
  else
    { env := env, status := 2
      lines := [.info s!"Setting bootlimit to {limit}",
        .fail "Cannot set bootlimit — fw_setenv not available"] }

/-- `mode_switch`. -/
def modeSwitch (host : Host) (env : Env) : ModeResult :=
  if checkFwEnv host env then
    let bootslot := expand env "bootslot"
    let current := if bootslot = "" then host.cmdlineSlot else bootslot
    match validatePartition current with
    | none =>
        { env := env, status := 1
          lines :=
            [.error s!"Cannot determine current slot ('{current}'). Set bootslot manually."] }
    | some slot =>
        let target := slot.other
        let forced :=
          if expand env target.stateVar = "failed" then
            [Line.warn (s!"Target slot {target.name} is marked 'failed'. " ++
              "Proceeding anyway with forced switch.")]
          else []
        let env := uenvSet host env "bootslot" target.name
        let env := uenvSet host env target.stateVar "pending"
        let env := uenvSet host env "bootcount" "0"
        { env := env, status := 0
          lines := [.info s!"Switching boot slot from {current} to {target.name}"] ++ forced ++
            [.pass s!"Switched to slot {target.name} (pending). Reboot to activate."] }
  else
    { env := env, status := 2, lines := [.fail "Cannot switch — fw_setenv not available"] }

/-- A mode of the script with its argument. -/
inductive Mode
  | markPending (part : String)
  | markActive (part : String)
  | markFailed (part : String)
  | setBootlimit (limit : String)
  | switch
deriving DecidableEq, Repr

/-- `main`. -/
def runMode (host : Host) (env : Env) : Mode → ModeResult
  | .markPending part => modeMarkPending host env part
  | .markActive part => modeMarkActive host env part
  | .markFailed part => modeMarkFailed host env part
  | .setBootlimit limit => modeSetBootlimit host env limit
  | .switch => modeSwitch host env

/-! ## Runs -/

inductive Action
  | boot
  | verifyBoot
  | mode (host : Host) (m : Mode)

/-- The stored environment after an action. -/
def act (env : Env) : Action → Env
  | .boot => (bootAttempt env).saved
  | .verifyBoot => verifyBoot env
  | .mode host m => (runMode host env m).env

/-- The scripts of U-Boot which an action runs. -/
def ranBy (env : Env) : Action → List String
  | .boot => (bootAttempt env).ran
  | .verifyBoot => ["verify_boot"]
  | .mode _ _ => []

/-- A step of a run. -/
structure Step where
  action : Action
  before : Env
  after : Env
  ran : List String

structure World where
  env : Env
  steps : List Step

def step (w : World) (a : Action) : World where
  env := act w.env a
  steps := w.steps ++ [⟨a, w.env, act w.env a, ranBy w.env a⟩]

def shipped : World where
  env := shippedEnv
  steps := []

/-! ## The purpose of the slots -/

def Selects (env : Env) (slot : Slot) : Prop := expand env "bootslot" = slot.name

def Failed (env : Env) (slot : Slot) : Prop := expand env slot.stateVar = "failed"

instance (env : Env) (slot : Slot) : Decidable (Selects env slot) :=
  inferInstanceAs (Decidable (_ = _))

instance (env : Env) (slot : Slot) : Decidable (Failed env slot) :=
  inferInstanceAs (Decidable (_ = _))

/-- The step runs `altbootcmd`, or it is `--mark-failed`. -/
def FallsBack (s : Step) : Prop :=
  "altbootcmd" ∈ s.ran ∨ ∃ host part, s.action = .mode host (.markFailed part)

/-- What a single step must not do, and the recovery boot it must take. -/
structure StepSafe (s : Step) : Prop where
  not_to_failed : FallsBack s → ∀ slot, Selects s.after slot → ¬ Selects s.before slot →
    ¬ Failed s.after slot
  not_revived : FallsBack s → ∀ slot, Failed s.before slot →
    expand s.after slot.stateVar ≠ "pending"
  recovers : s.action = .boot → (∀ slot, Failed s.before slot) → "recoveryboot" ∈ s.ran

/-- The promise of the A/B scheme, of a state of a run and all steps that led there. -/
structure SlotsSafe (w : World) : Prop where
  selected : ∀ slot, Selects w.env slot → Failed w.env slot → Failed w.env slot.other
  steps : ∀ s ∈ w.steps, StepSafe s

/-! ## What each action does to the slots -/

/-- The selected slot has not failed. -/
def Sound (env : Env) : Prop := ∃ slot, Selects env slot ∧ ¬ Failed env slot

/-- An environment selects one slot at most. -/
theorem Selects.unique {env : Env} {slot s : Slot} (h : Selects env slot) (hs : Selects env s) :
    s = slot :=
  Slot.name_inj.mp (hs.symm.trans h)

/-- An environment which agrees on the selection and on both states. -/
def SameSlots (env env' : Env) : Prop :=
  expand env' "bootslot" = expand env "bootslot" ∧
    ∀ slot : Slot, expand env' slot.stateVar = expand env slot.stateVar

/-- Environments with the same slots select the same one. -/
theorem SameSlots.selects {env env' : Env} (h : SameSlots env env') (slot : Slot) :
    Selects env' slot ↔ Selects env slot := by
  rw [Selects, Selects, h.1]

/-- Environments with the same slots have the same failed ones. -/
theorem SameSlots.failed {env env' : Env} (h : SameSlots env env') (slot : Slot) :
    Failed env' slot ↔ Failed env slot := by
  rw [Failed, Failed, h.2 slot]

/-- Soundness depends on the slots only. -/
theorem SameSlots.sound {env env' : Env} (h : SameSlots env env') (hs : Sound env) :
    Sound env' := by
  obtain ⟨slot, hsel, hfail⟩ := hs
  exact ⟨slot, (h.selects slot).mpr hsel, fun hf => hfail ((h.failed slot).mp hf)⟩

/-- Another variable does not change the slots. -/
theorem sameSlots_setenv (env : Env) {name : String} (value : String) (hslot : name ≠ "bootslot")
    (hstate : ∀ slot : Slot, slot.stateVar ≠ name) : SameSlots env (setenv env name value) := by
  refine ⟨?_, fun slot => ?_⟩
  · rw [expand_setenv, if_neg (Ne.symm hslot)]
  · rw [expand_setenv, if_neg (hstate slot)]

/-- Counting a boot does not change the slots. -/
theorem sameSlots_countBoot (env : Env) : SameSlots env (countBoot env) :=
  sameSlots_setenv env _ (by decide) (fun slot => (Slot.stateVar_ne slot).2.1)

/-- `ab_fallback` gives up the selected slot and turns to the other, whatever its state. -/
theorem abFallback_spec {env : Env} {slot : Slot} (h : Selects env slot) :
    Selects (abFallback env) slot.other ∧ Failed (abFallback env) slot ∧
      expand (abFallback env) slot.other.stateVar = "pending" := by
  cases slot with
  | A =>
      have hA : expand env "bootslot" = "A" := h
      simp [Selects, Failed, abFallback, hA, expand_setenv, Slot.name, Slot.other, Slot.stateVar]
  | B =>
      have hB : expand env "bootslot" = "B" := h
      simp [Selects, Failed, abFallback, hB, expand_setenv, Slot.name, Slot.other, Slot.stateVar]

/-- `verify_boot` confirms the selected slot. -/
theorem sound_verifyBoot {env : Env} (hs : Sound env) : Sound (verifyBoot env) := by
  obtain ⟨slot, hsel, -⟩ := hs
  refine ⟨slot, ?_⟩
  cases slot with
  | A =>
      have hA : expand env "bootslot" = "A" := hsel
      simp [Selects, Failed, verifyBoot, hA, expand_setenv, Slot.name, Slot.stateVar]
  | B =>
      have hB : expand env "bootslot" = "B" := hsel
      simp [Selects, Failed, verifyBoot, hB, expand_setenv, Slot.name, Slot.stateVar]

/-- A valid partition is the name of its slot. -/
theorem validatePartition_eq {part : String} {slot : Slot}
    (h : validatePartition part = some slot) : part = slot.name := by
  unfold validatePartition at h
  split at h
  · cases h
    assumption
  · split at h
    · cases h
      assumption
    · cases h

/-- A dry run writes nothing. -/
@[simp] theorem uenvSet_dry {host : Host} (h : host.dryRun = true) (env : Env)
    (var val : String) : uenvSet host env var val = env := by
  simp [uenvSet, h]

/-- A live run writes the variable. -/
@[simp] theorem uenvSet_live {host : Host} (h : host.dryRun = false) (env : Env)
    (var val : String) : uenvSet host env var val = setenv env var val := by
  simp [uenvSet, h]

/-- A dry run of any mode changes nothing. -/
theorem runMode_dry {host : Host} (hdry : host.dryRun = true) (env : Env) (m : Mode) :
    (runMode host env m).env = env := by
  cases m with
  | markPending part =>
      simp only [runMode, modeMarkPending, uenvSet_dry hdry]
      repeat' split
      all_goals rfl
  | markActive part =>
      simp only [runMode, modeMarkActive, uenvSet_dry hdry]
      repeat' split
      all_goals rfl
  | markFailed part =>
      simp only [runMode, modeMarkFailed, uenvSet_dry hdry]
      repeat' split
      all_goals rfl
  | setBootlimit limit =>
      simp only [runMode, modeSetBootlimit, uenvSet_dry hdry]
      repeat' split
      all_goals rfl
  | switch =>
      simp only [runMode, modeSwitch, uenvSet_dry hdry]
      repeat' split
      all_goals rfl

/-- Nor does a mode which cannot reach the environment. -/
theorem runMode_unavailable {host : Host} {env : Env} (hfw : checkFwEnv host env = false)
    (m : Mode) : (runMode host env m).env = env := by
  cases m with
  | markPending part =>
      simp only [runMode, modeMarkPending, hfw, Bool.false_eq_true, if_false]
      split <;> rfl
  | markActive part =>
      simp only [runMode, modeMarkActive, hfw, Bool.false_eq_true, if_false]
      split <;> rfl
  | markFailed part =>
      simp only [runMode, modeMarkFailed, hfw, Bool.false_eq_true, if_false]
      split <;> rfl
  | setBootlimit limit =>
      simp only [runMode, modeSetBootlimit, hfw, Bool.false_eq_true, if_false]
      split <;> rfl
  | switch => simp only [runMode, modeSwitch, hfw, Bool.false_eq_true, if_false]

/-- The call writes: it is no dry run and reaches the environment. -/
def Live (host : Host) (env : Env) : Prop := host.dryRun = false ∧ checkFwEnv host env = true

instance (host : Host) (env : Env) : Decidable (Live host env) :=
  inferInstanceAs (Decidable (_ ∧ _))

/-- Without a live environment no mode changes it. -/
theorem runMode_idle {host : Host} {env : Env} (hidle : ¬ Live host env) (m : Mode) :
    (runMode host env m).env = env := by
  by_cases hdry : host.dryRun = true
  · exact runMode_dry hdry env m
  · have hfw : checkFwEnv host env ≠ true := fun h => hidle ⟨by simpa using hdry, h⟩
    exact runMode_unavailable (by simpa using hfw) m

/-- `--mark-pending` and `--switch` select a slot which is pending, or do nothing. -/
theorem sound_of_pending {env : Env} (slot : Slot) (hslot : Selects env slot)
    (hpending : expand env slot.stateVar = "pending") : Sound env :=
  ⟨slot, hslot, fun h => by simp [Failed, hpending] at h⟩

/-- Marking a slot pending keeps the environment sound. -/
theorem sound_modeMarkPending {host : Host} {env : Env} (hlive : Live host env)
    (hs : Sound env) (part : String) : Sound (modeMarkPending host env part).env := by
  unfold modeMarkPending
  simp only [hlive.2, if_true, uenvSet_live hlive.1]
  cases validatePartition part with
  | none => exact hs
  | some slot =>
      refine sound_of_pending slot ?_ ?_
      · simp [Selects, expand_setenv]
      · simp [expand_setenv]

/-- Switching keeps the environment sound. -/
theorem sound_modeSwitch {host : Host} {env : Env} (hlive : Live host env)
    (hs : Sound env) : Sound (modeSwitch host env).env := by
  unfold modeSwitch
  simp only [hlive.2, if_true, uenvSet_live hlive.1]
  generalize validatePartition _ = current
  cases current with
  | none => exact hs
  | some slot =>
      refine sound_of_pending slot.other ?_ ?_
      · simp [Selects, expand_setenv, (Slot.stateVar_ne _).1.symm]
      · simp [expand_setenv]

/-- Setting the boot limit keeps the environment sound. -/
theorem sound_modeSetBootlimit {host : Host} {env : Env} (hlive : Live host env)
    (hs : Sound env) (limit : String) : Sound (modeSetBootlimit host env limit).env := by
  unfold modeSetBootlimit
  simp only [hlive.2, if_true, uenvSet_live hlive.1]
  split
  · exact hs
  · exact (sameSlots_setenv env limit (by decide)
      (fun slot => (Slot.stateVar_ne slot).2.2)).sound hs

/-- What a live `--mark-active` writes. -/
theorem env_modeMarkActive {host : Host} {env : Env} (hlive : Live host env) {part : String}
    {slot : Slot} (hpart : validatePartition part = some slot) :
    (modeMarkActive host env part).env =
      let confirmed := setenv (setenv env slot.stateVar "active") "bootcount" "0"
      if expand env slot.other.stateVar ≠ "failed" then
        setenv confirmed slot.other.stateVar "standby"
      else confirmed := by
  have hother : expand (setenv (setenv env slot.stateVar "active") "bootcount" "0")
      slot.other.stateVar = expand env slot.other.stateVar := by
    simp [expand_setenv, Slot.other_ne]
  unfold modeMarkActive
  simp only [hpart, hlive.2, if_true, uenvSet_live hlive.1, hother]
  split <;> rfl

/-- `--mark-active` spares only a failed slot, so it leaves the selected one standing. -/
theorem sound_modeMarkActive {host : Host} {env : Env} (hlive : Live host env)
    (hs : Sound env) (part : String) : Sound (modeMarkActive host env part).env := by
  cases hpart : validatePartition part with
  | none => simpa [modeMarkActive, hpart, invalidPartition] using hs
  | some slot =>
      obtain ⟨s, hsel, hfail⟩ := hs
      have hname : expand env "bootslot" = s.name := hsel
      refine ⟨s, ?_, ?_⟩
      · rw [env_modeMarkActive hlive hpart, Selects]
        split
        · simp [expand_setenv, (Slot.stateVar_ne _).1.symm, hname]
        · simp [expand_setenv, (Slot.stateVar_ne _).1.symm, hname]
      · rw [env_modeMarkActive hlive hpart, Failed]
        rcases Slot.eq_or_eq_other slot s with rfl | rfl
        · split
          · simp [expand_setenv, (Slot.other_ne s).symm]
          · simp [expand_setenv]
        · have hother : expand env slot.other.stateVar ≠ "failed" := hfail
          simp [hother, expand_setenv]

/-- **`--mark-failed`**, live and for a slot: the slot has failed, and if it was the selected
one the other is selected as it is. -/
theorem modeMarkFailed_spec {host : Host} {env : Env} (hlive : Live host env) (slot : Slot) :
    Failed (modeMarkFailed host env slot.name).env slot ∧
      (Failed (modeMarkFailed host env slot.name).env slot.other ↔ Failed env slot.other) ∧
      (Selects env slot → Selects (modeMarkFailed host env slot.name).env slot.other) ∧
      (¬ Selects env slot → ∀ s, Selects (modeMarkFailed host env slot.name).env s ↔
        Selects env s) := by
  have hpart : validatePartition slot.name = some slot := by cases slot <;> rfl
  unfold modeMarkFailed
  simp only [hpart, hlive.2, if_true, uenvSet_live hlive.1]
  have hbootslot : expand (setenv env slot.stateVar "failed") "bootslot" =
      expand env "bootslot" := by
    simp [expand_setenv, (Slot.stateVar_ne _).1.symm]
  by_cases hsel : expand env "bootslot" = slot.name
  · rw [if_pos (hbootslot.trans hsel)]
    refine ⟨?_, ?_, fun _ => ?_, fun h => absurd hsel h⟩
    · simp [Failed, expand_setenv]
    · simp [Failed, expand_setenv, Slot.other_ne]
    · simp [Selects, expand_setenv]
  · rw [if_neg (fun h => hsel (hbootslot.symm.trans h))]
    refine ⟨?_, ?_, fun h => absurd h hsel, fun _ s => ?_⟩
    · simp [Failed, expand_setenv]
    · simp [Failed, expand_setenv, Slot.other_ne]
    · rw [Selects, Selects, hbootslot]

/-! ## Steps that spare a failed slot -/

/-- The condition on an action: `altbootcmd`, and a live `--mark-failed` of the selected
slot, find the other slot not failed. -/
def Spares (env : Env) : Action → Prop
  | .boot => UsesAltbootcmd env → ∀ slot, Selects env slot → ¬ Failed env slot.other
  | .mode host (.markFailed part) => Live host env → ∀ slot, validatePartition part = some slot →
      Selects env slot → ¬ Failed env slot.other
  | _ => True

/-- The record of one step. -/
def stepOf (env : Env) (a : Action) : Step := ⟨a, env, act env a, ranBy env a⟩

/-- A step that does not fall back is safe where a slot still stands. -/
theorem stepSafe_of_quiet {env : Env} (hs : Sound env) {a : Action}
    (hquiet : ¬ FallsBack (stepOf env a)) : StepSafe (stepOf env a) where
  not_to_failed := fun h => absurd h hquiet
  not_revived := fun h => absurd h hquiet
  recovers := by
    intro _ hall
    obtain ⟨slot, -, hfail⟩ := hs
    exact absurd (hall slot) hfail

/-- A mode that changes nothing is safe. -/
theorem stepSafe_of_same {env : Env} (hs : Sound env) {a : Action} (hsame : act env a = env) :
    StepSafe (stepOf env a) where
  not_to_failed := by
    intro _ slot hafter hbefore
    exact absurd (by simpa [stepOf, hsame] using hafter) hbefore
  not_revived := by
    intro _ slot hfailed
    simp only [stepOf, hsame]
    rw [show expand env slot.stateVar = "failed" from hfailed]
    decide
  recovers := by
    intro _ hall
    obtain ⟨slot, -, hfail⟩ := hs
    exact absurd (hall slot) hfail

/-- A boot attempt that has not reached the limit leaves the slots alone. -/
theorem boot_of_below {env : Env} (hbelow : ¬ UsesAltbootcmd env) :
    act env .boot = countBoot env ∧ "altbootcmd" ∉ ranBy env .boot := by
  simp [act, ranBy, bootAttempt, hbelow, bootcmd]

/-- A boot over the limit counts, then falls back. -/
theorem boot_of_reached {env : Env} (hreached : UsesAltbootcmd env) :
    act env .boot = abFallback (countBoot env) ∧ "altbootcmd" ∈ ranBy env .boot := by
  simp [act, ranBy, bootAttempt, hreached, altbootcmd]

/-- A sound environment stays sound under an action which spares the other slot. -/
theorem sound_act {env : Env} (hs : Sound env) {a : Action} (hspares : Spares env a) :
    Sound (act env a) := by
  cases a with
  | boot =>
      by_cases halt : UsesAltbootcmd env
      · obtain ⟨slot, hsel, -⟩ := hs
        rw [(boot_of_reached halt).1]
        obtain ⟨hselected, -, hpending⟩ :=
          abFallback_spec (((sameSlots_countBoot env).selects slot).mpr hsel)
        exact sound_of_pending slot.other hselected hpending
      · rw [(boot_of_below halt).1]
        exact (sameSlots_countBoot env).sound hs
  | verifyBoot => exact sound_verifyBoot hs
  | mode host m =>
      by_cases hlive : Live host env
      · cases m with
        | markPending part => exact sound_modeMarkPending hlive hs part
        | markActive part => exact sound_modeMarkActive hlive hs part
        | setBootlimit limit => exact sound_modeSetBootlimit hlive hs limit
        | switch => exact sound_modeSwitch hlive hs
        | markFailed part =>
            cases hpart : validatePartition part with
            | none => simpa [act, runMode, modeMarkFailed, hpart, invalidPartition] using hs
            | some slot =>
                obtain ⟨s, hsel, hfail⟩ := hs
                obtain ⟨-, hother, hturn, hstay⟩ := modeMarkFailed_spec hlive slot
                simp only [act, runMode]
                obtain rfl := validatePartition_eq hpart
                by_cases hslot : Selects env slot
                · refine ⟨slot.other, hturn hslot, ?_⟩
                  rw [hother]
                  exact hspares hlive slot hpart hslot
                · -- the selected slot is the other one, which has not failed
                  obtain rfl : s = slot.other := by
                    rcases Slot.eq_or_eq_other slot s with rfl | h
                    · exact absurd hsel hslot
                    · exact h
                  exact ⟨slot.other, (hstay hslot _).mpr hsel, fun h => hfail (hother.mp h)⟩
      · rw [act, runMode_idle hlive]
        exact hs

/-- A boot attempt at the limit is safe when the other slot has not failed. -/
theorem stepSafe_boot_iff {env : Env} (hs : Sound env) (halt : UsesAltbootcmd env) :
    StepSafe (stepOf env .boot) ↔ ∀ slot, Selects env slot → ¬ Failed env slot.other := by
  have hsame := sameSlots_countBoot env
  obtain ⟨hact, hran⟩ := boot_of_reached halt
  constructor
  · intro hsafe slot hsel hother
    obtain ⟨-, -, hpending⟩ := abFallback_spec ((hsame.selects slot).mpr hsel)
    exact hsafe.not_revived (.inl hran) slot.other hother (by simpa [stepOf, hact] using hpending)
  · intro hspares
    obtain ⟨slot, hsel, hfail⟩ := hs
    obtain ⟨hturned, hfailed, hpending⟩ := abFallback_spec ((hsame.selects slot).mpr hsel)
    refine ⟨fun _ s hafter _ => ?_, fun _ s hbefore => ?_, fun _ hall => absurd (hall slot) hfail⟩
    · simp only [stepOf, hact] at hafter ⊢
      rw [hturned.unique hafter, Failed, hpending]
      decide
    · rcases Slot.eq_or_eq_other slot s with rfl | rfl
      · exact absurd hbefore hfail
      · exact absurd hbefore (hspares slot hsel)

/-- A live `--mark-failed` of a slot is safe when it does not turn to a failed one. -/
theorem stepSafe_markFailed_iff {host : Host} {env : Env} (hlive : Live host env) (slot : Slot) :
    StepSafe (stepOf env (.mode host (.markFailed slot.name))) ↔
      (Selects env slot → ¬ Failed env slot.other) := by
  obtain ⟨hfailed, hother, hturn, hstay⟩ := modeMarkFailed_spec hlive slot
  constructor
  · intro hsafe hsel hbad
    refine hsafe.not_to_failed (.inr ⟨host, slot.name, rfl⟩) slot.other (hturn hsel) ?_
      (hother.mpr hbad)
    intro h
    exact Slot.other_ne slot (hsel.unique h)
  · intro hspares
    refine ⟨fun _ s hafter hbefore => ?_, fun _ s hbad => ?_, fun h => nomatch h⟩
    · by_cases hsel : Selects env slot
      · obtain rfl := (hturn hsel).unique hafter
        exact fun h => hspares hsel (hother.mp h)
      · exact absurd ((hstay hsel s).mp hafter) hbefore
    · have hstill : Failed (modeMarkFailed host env slot.name).env s := by
        rcases Slot.eq_or_eq_other slot s with rfl | rfl
        · exact hfailed
        · exact hother.mpr hbad
      simp only [stepOf, act, runMode]
      rw [show expand _ s.stateVar = "failed" from hstill]
      decide

/-- **One step** is safe exactly when it spares the other slot. -/
theorem stepSafe_iff {env : Env} (hs : Sound env) (a : Action) :
    StepSafe (stepOf env a) ↔ Spares env a := by
  cases a with
  | boot =>
      by_cases halt : UsesAltbootcmd env
      · rw [stepSafe_boot_iff hs halt]
        exact ⟨fun h _ => h, fun h => h halt⟩
      · refine ⟨fun _ h => absurd h halt, fun _ => stepSafe_of_quiet hs ?_⟩
        rintro (h | ⟨host, part, h⟩)
        · exact (boot_of_below halt).2 h
        · cases h
  | verifyBoot =>
      refine ⟨fun _ => trivial, fun _ => stepSafe_of_quiet hs ?_⟩
      simp [FallsBack, stepOf, ranBy]
  | mode host m =>
      cases m with
      | markFailed part =>
          by_cases hlive : Live host env
          · cases hpart : validatePartition part with
            | none =>
                have hsame : act env (.mode host (.markFailed part)) = env := by
                  simp [act, runMode, modeMarkFailed, hpart, invalidPartition]
                refine ⟨fun _ _ slot h => absurd (hpart.symm.trans h) (by simp), fun _ => ?_⟩
                exact stepSafe_of_same hs hsame
            | some slot =>
                obtain rfl := validatePartition_eq hpart
                rw [stepSafe_markFailed_iff hlive slot]
                constructor
                · intro h _ s hs
                  obtain rfl : slot = s := Option.some.inj (hpart.symm.trans hs)
                  exact h
                · exact fun h => h hlive slot hpart
          · have hsame : act env (.mode host (.markFailed part)) = env := runMode_idle hlive _
            exact ⟨fun _ h => absurd h hlive, fun _ => stepSafe_of_same hs hsame⟩
      | _ =>
          refine ⟨fun _ => trivial, fun _ => stepSafe_of_quiet hs ?_⟩
          simp [FallsBack, stepOf, ranBy]

/-! ## Runs that keep the promise -/

/-- The shipped environment is sound. -/
theorem sound_shipped : Sound shippedEnv := ⟨.A, by decide, by decide⟩

/-- The shipped environment is safe. -/
theorem slotsSafe_shipped : SlotsSafe shipped where
  selected := by
    intro slot hsel hfail
    obtain ⟨s, hs, hstands⟩ := sound_shipped
    exact absurd (hs.unique hsel ▸ hfail) hstands
  steps := by
    intro s hs
    cases hs

/-- From a sound state a step keeps the promise exactly when it spares the other slot. -/
theorem slotsSafe_step_iff {w : World} (hs : Sound w.env) (hw : SlotsSafe w) (a : Action) :
    SlotsSafe (step w a) ↔ Spares w.env a := by
  constructor
  · intro h
    refine (stepSafe_iff hs a).mp (h.steps _ ?_)
    simp [step, stepOf]
  · intro hspares
    obtain ⟨slot, hsel, hstands⟩ := sound_act hs hspares
    refine ⟨?_, ?_⟩
    · intro s hs' hfail
      exact absurd (hsel.unique hs' ▸ hfail) hstands
    · intro s hmem
      rcases List.mem_append.mp hmem with hold | hnew
      · exact hw.steps s hold
      · rw [List.mem_singleton.mp hnew]
        exact (stepSafe_iff hs a).mpr hspares

/-- **The A/B slots keep their promise** in every state of a run exactly when every
`altbootcmd` and every live `--mark-failed` of the selected slot finds the other slot not
failed. -/
theorem slotsSafe_iff (run : List Action) :
    Throughout step SlotsSafe shipped run ↔
      Meets step (fun w a => Spares w.env a) shipped run := by
  refine throughout_iff_meets (fun w : World => Sound w.env) ?_
    (fun _ a hs hw => slotsSafe_step_iff hs hw a) sound_shipped slotsSafe_shipped run
  intro w a hs hw hnext
  exact sound_act hs ((slotsSafe_step_iff hs hw a).mp hnext)

/-- A host with the U-Boot tools, and no dry run. -/
def target : Host where
  dryRun := false
  fwTools := true
  cmdlineSlot := "A"

/-- Slot B is known to be broken; after three boots of A the fallback goes to B again. -/
theorem fallback_to_failed_slot :
    ¬ Throughout step SlotsSafe shipped
      [.mode target (.markFailed "B"), .boot, .boot, .boot] := by
  intro h
  have hlast := h.at_end.steps _ (List.mem_append_right _ (List.mem_singleton_self _))
  exact hlast.not_revived (.inl (by decide +kernel)) .B (by decide +kernel) (by decide +kernel)

/-- No boot attempt takes the recovery boot, whatever the state of the slots. -/
theorem no_recovery (env : Env) : "recoveryboot" ∉ (bootAttempt env).ran := by
  unfold bootAttempt
  split
  · simp [altbootcmd]
  · simp [bootcmd]

end FaultOracle.Boot
