import Mathlib.Data.List.Sort
import Mathlib.Data.String.Basic
import FaultOracle.InsertionDict
import FaultOracle.PythonFloats

/-!
# The cooldown file and the metrics of the remediation programs

`remediation-controller.py` and `webhook-server.py` are two programs with the same
few helpers, each with its own copy: they load and save one state file as a whole,
and count in dictionaries keyed by sorted label tuples.
-/

namespace FaultOracle.Remediation

open InsertionDict PythonFloats

/-- The text of a `last_action`, by what the program can tell of it: it is empty or
absent, `datetime.fromisoformat` rejects it, or it reads as a datetime without or
with a time zone.  Times are seconds since the epoch, a naive one read as UTC. -/
inductive IsoText
  | blank
  | malformed
  | naive (t : ℚ)
  | aware (t : ℚ)
deriving DecidableEq, Repr

/-- `datetime.now(timezone.utc).isoformat()` at the time `t`. -/
def isoformat (t : ℚ) : IsoText := .aware t

/-- The cooldown entry of a node. -/
structure StateEntry where
  lastAction : IsoText
  probability : PyFloat
  dryRun : Bool
deriving DecidableEq, Repr

/-- The dictionary of entries by node. -/
abbrev State := String → Option StateEntry

/-- The contents of `STATE_FILE`.  Only the two programs write it, so what decodes
is a dictionary of entries. -/
inductive StateFile
  | missing
  | undecodable
  | dict (state : State)

/-- `_load_state`. -/
def loadState : StateFile → State
  | .missing => fun _ => none
  | .undecodable => fun _ => none
  | .dict state => state

/-- `_save_state`; the file is replaced in one step by `os.replace`. -/
def saveState (state : State) : StateFile := .dict state

@[simp] theorem loadState_saveState (state : State) : loadState (saveState state) = state :=
  rfl

/-! ## Metrics -/

/-- `tuple(sorted(labels.items()))`; the names of a label set are distinct. -/
def labelKey {ν : Type} (labels : List (String × ν)) : List (String × ν) :=
  labels.mergeSort (fun a b => decide (a.1 ≤ b.1))

/-- The samples of each metric, by label key. -/
abbrev Samples (ν α : Type) := String → List (List (String × ν) × α)

/-- `counter_inc`, for labels which have a hash. -/
def counterInc {ν : Type} [BEq ν] (counters : Samples ν Nat) (name : String)
    (labels : List (String × ν)) : Samples ν Nat :=
  let key := labelKey labels
  Function.update counters name
    (setItem key (((counters name).lookup key).getD 0 + 1) (counters name))

/-- `gauge_set`. -/
def gaugeSet {ν : Type} [BEq ν] (gauges : Samples ν ℚ) (name : String) (value : ℚ)
    (labels : List (String × ν)) : Samples ν ℚ :=
  Function.update gauges name (setItem (labelKey labels) value (gauges name))

end FaultOracle.Remediation
