import Mathlib.Data.List.Basic
import Mathlib.Data.String.Basic
import Mathlib.Logic.Function.Basic

/-!
# The U-Boot environment and its A/B scripts

`uboot-bootcount.env` keeps the choice between two root file systems in a handful of
variables and moves it with scripts that are variables themselves.  Here the scripts are
functions on environments, one for each, and a boot attempt is what U-Boot makes of
them: it counts, compares with `bootlimit`, and runs `bootcmd` or `altbootcmd`.

Only `saveenv` and the boot counter reach the stored environment.  `select_slot` writes to
the copy in memory, from which `load_fit` and `boot_fit` then take the image and the
kernel its arguments.
-/

namespace FaultOracle.Boot

/-- An environment: the value of every variable that is set. -/
abbrev Env := String → Option String

/-- `${name}`; a variable that is not set expands to nothing. -/
def expand (env : Env) (name : String) : String := (env name).getD ""

/-- `setenv`, which removes a variable when the value is empty. -/
def setenv (env : Env) (name value : String) : Env :=
  Function.update env name (if value = "" then none else some value)

theorem expand_setenv (env : Env) (name value other : String) :
    expand (setenv env name value) other = if other = name then value else expand env other := by
  by_cases hname : other = name
  · by_cases hvalue : value = ""
    · simp [expand, setenv, hname, hvalue]
    · simp [expand, setenv, hname, hvalue]
  · simp [expand, setenv, hname]

def isBlank (c : Char) : Bool := c = ' ' || c = '\t' || c = '\n'

/-- The words of an expansion without quotes, which `setenv` joins by single blanks. -/
def unquoted (value : String) : String :=
  String.ofList ([' '].intercalate ((value.toList.splitOnP isBlank).filter (fun w => w ≠ [])))

/-- The leading decimal digits of a value, as an unsigned long. -/
def parseUlong (value : String) : Nat :=
  (value.toList.takeWhile Char.isDigit).foldl
    (fun n c => (n * 10 + (c.toNat - '0'.toNat)) % 2 ^ 64) 0

/-- A number of the environment. -/
def envUlong (env : Env) (name : String) : Nat := parseUlong (expand env name)

/-- The two slots. -/
inductive Slot
  | A
  | B
deriving DecidableEq, Repr

namespace Slot

def other : Slot → Slot
  | .A => .B
  | .B => .A

def name : Slot → String
  | .A => "A"
  | .B => "B"

def stateVar : Slot → String
  | .A => "slot_a_state"
  | .B => "slot_b_state"

def fitimageVar : Slot → String
  | .A => "fitimage_a"
  | .B => "fitimage_b"

def bootargsVar : Slot → String
  | .A => "bootargs_a"
  | .B => "bootargs_b"

def partVar : Slot → String
  | .A => "part_a"
  | .B => "part_b"

theorem other_ne (slot : Slot) : slot.other ≠ slot := by
  cases slot <;> decide

theorem eq_or_eq_other (slot s : Slot) : s = slot ∨ s = slot.other := by
  cases slot <;> cases s <;> decide

@[simp] theorem name_inj {slot s : Slot} : slot.name = s.name ↔ slot = s := by
  cases slot <;> cases s <;> decide

@[simp] theorem stateVar_inj {slot s : Slot} : slot.stateVar = s.stateVar ↔ slot = s := by
  cases slot <;> cases s <;> decide

/-- The state of a slot is none of the shared variables. -/
@[simp] theorem stateVar_ne (slot : Slot) : slot.stateVar ≠ "bootslot" ∧
    slot.stateVar ≠ "bootcount" ∧ slot.stateVar ≠ "bootlimit" := by
  cases slot <;> decide

end Slot

/-- The variables of `uboot-bootcount.env` that are not scripts. -/
def shippedVars : List (String × String) :=
  [("bootslot", "A"), ("slot_a_state", "active"), ("slot_b_state", "standby"),
    ("bootlimit", "3"), ("bootcount", "0"), ("mmcdev", "0"), ("boot_mmcpart", "1"),
    ("part_a", "2"), ("part_b", "3"), ("fitimage_a", "kernel-a.itb"),
    ("fitimage_b", "kernel-b.itb"), ("data_part", "4"),
    ("bootargs_common",
      "earlycon console=ttyAMA0,115200 loglevel=4 rootwait rootfstype=ext4"),
    ("bootargs_a", "$\x7bbootargs_common\x7d root=/dev/mmcblk0p2 ro"),
    ("bootargs_b", "$\x7bbootargs_common\x7d root=/dev/mmcblk0p3 ro"),
    ("recovery_bootargs", "earlycon console=ttyAMA0,115200 root=/dev/sda1 ro rootwait")]

/-- The environment as shipped. -/
def shippedEnv : Env := fun name => shippedVars.lookup name

/-- What either branch of `select_slot` does with the variables of its slot. -/
def setSlot (env : Env) (slot : Slot) : Env :=
  let env := setenv env "fitimage" (unquoted (expand env slot.fitimageVar))
  let env := setenv env "bootargs" (unquoted (expand env slot.bootargsVar))
  setenv env "root_part" (unquoted (expand env slot.partVar))

/-- `select_slot`. -/
def selectSlot (env : Env) : Env :=
  if expand env "bootslot" = "A" then setSlot env .A else setSlot env .B

/-- `ab_fallback`, up to its `saveenv`. -/
def abFallback (env : Env) : Env :=
  let env :=
    if expand env "bootslot" = "A" then
      setenv (setenv (setenv env "slot_a_state" "failed") "bootslot" "B") "slot_b_state" "pending"
    else
      setenv (setenv (setenv env "slot_b_state" "failed") "bootslot" "A") "slot_a_state" "pending"
  setenv env "bootcount" "0"

/-- `verify_boot`, up to its `saveenv`. -/
def verifyBoot (env : Env) : Env :=
  let env := setenv env "bootcount" "0"
  if expand env "bootslot" = "A" then
    setenv (setenv env "slot_a_state" "active") "slot_b_state" "standby"
  else setenv (setenv env "slot_b_state" "active") "slot_a_state" "standby"

/-- A boot attempt: the environment it stores, the one in memory when the kernel starts,
the scripts it ran and what it printed. -/
structure BootResult where
  saved : Env
  ram : Env
  ran : List String
  console : List String

/-- `bootcmd`. -/
def bootcmd (env : Env) : BootResult where
  saved := env
  ram := selectSlot env
  ran := ["bootcmd", "select_slot", "load_fit", "boot_fit"]
  console := []

/-- `altbootcmd`. -/
def altbootcmd (env : Env) : BootResult where
  saved := abFallback env
  ram := selectSlot (abFallback env)
  ran := ["altbootcmd", "ab_fallback", "select_slot", "load_fit", "boot_fit"]
  console := ["FALLBACK: switched to slot " ++ expand (abFallback env) "bootslot"]

/-- U-Boot counts the attempt and stores the count. -/
def countBoot (env : Env) : Env := setenv env "bootcount" (toString (envUlong env "bootcount" + 1))

/-- The attempt has reached the limit. -/
def UsesAltbootcmd (env : Env) : Prop := envUlong (countBoot env) "bootcount" ≥
  envUlong (countBoot env) "bootlimit"

instance (env : Env) : Decidable (UsesAltbootcmd env) := inferInstanceAs (Decidable (_ ≥ _))

/-- A boot attempt. -/
def bootAttempt (env : Env) : BootResult :=
  if UsesAltbootcmd env then altbootcmd (countBoot env) else bootcmd (countBoot env)

end FaultOracle.Boot
