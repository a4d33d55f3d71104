import Mathlib.Data.List.Induction
import Mathlib.Data.List.Infix
import FaultOracle.GuardedRuns
import FaultOracle.PythonFloats
import FaultOracle.RemediationController

/-!
# The Redfish collector

`bmc/redfish_collector.py`: a run asks a BMC for its health, its event log, its temperatures, fans
and power supplies.  Of the log it reports the Critical and Warning entries whose ids are not in the
state file, and adds them to it.

`each_entry_once` says that over all runs each such entry is new in one run, the first which
returned it.
-/

namespace FaultOracle.Redfish

open GuardedRuns PythonFloats
open FaultOracle.Remediation (strip)

abbrev Text := List Char

/-- A member of a JSON object which is absent, null or a string. -/
inductive Field
  | absent
  | null
  | str (s : Text)
deriving DecidableEq, Repr

/-- `d.get(name, "")`, as it is compared with strings. -/
def Field.is (f : Field) (s : String) : Bool := f = .str s.toList

/-- `str(d.get(name, ""))`. -/
def Field.text : Field → Text
  | .absent => []
  | .null => "None".toList
  | .str s => s

/-- `d.get(name, "") or ""`. -/
def Field.orEmpty : Field → Text
  | .absent => []
  | .null => []
  | .str s => s

/-- A number, which is written as it is read. -/
inductive Number
  | int (n : Int)
  | float (x : PyFloat)
deriving DecidableEq, Repr

/-! ## The answers -/

/-- An entry of the event log, as far as it is read. -/
structure LogEntry where
  id : Field
  severity : Field
  messageId : Field
deriving DecidableEq, Repr

/-- The `Systems` endpoint: the two health strings, absent where a key is missing on the way. -/
structure SystemData where
  memoryHealth : Field
  processorHealth : Field

/-- A temperature or a fan. -/
structure Sensor where
  name : Option Text
  reading : Option Number

structure ThermalData where
  temperatures : List Sensor
  fans : List Sensor

structure PowerSupply where
  name : Option Text
  memberId : Option Text
  powerInputWatts : Option Number
  state : Field

/-- What a run finds around it: `REDFISH_HOST`, and the answer to each request, none where it
fails.  The first two are those of `get_system_path`. -/
structure Surroundings where
  host : Text
  embeddedSystem : Option SystemData
  firstSystem : Option SystemData
  system : Option SystemData
  entries : Option (List LogEntry)
  thermal : Option ThermalData
  power : Option (List PowerSupply)

/-! ## What is collected -/

/-- `HEALTH_MAP`. -/
def healthMap : List (Text × Int) :=
  [("ok".toList, 1), ("warning".toList, 0), ("critical".toList, -1)]

/-- `SEL_CATEGORY_PATTERNS`. -/
def selCategoryPatterns : List (Text × List Text) :=
  [("cpu", ["cpu", "processor"]), ("memory", ["memory", "mem", "dram"]),
    ("power", ["power", "psu", "voltage"]), ("thermal", ["thermal", "temp", "fan"]),
    ("storage", ["storage", "disk", "drive", "raid"]),
    ("network", ["network", "nic", "ethernet"])].map fun p =>
      (p.1.toList, p.2.map String.toList)

/-- A component and its health. -/
structure HealthItem where
  component : Text
  value : Int
deriving DecidableEq, Repr

/-- A log entry which is new. -/
structure NewEntry where
  id : Text
  severity : Text
  category : Text
deriving DecidableEq, Repr

/-- A sensor with its reading. -/
structure Reading where
  name : Text
  value : Number
deriving DecidableEq, Repr

structure PsuItem where
  psu : Text
  watts : Number
  up : Nat
deriving DecidableEq, Repr

section Collect

-- `str.lower`, which is the matter of the Unicode database
variable (lower : Text → Text)

/-- `health_to_int`. -/
def healthToInt (health : Field) : Int := (healthMap.lookup (lower health.orEmpty)).getD 0

/-- `sel_category_for`. -/
def selCategoryFor (messageId : Field) : Text :=
  let text := lower messageId.orEmpty
  ((selCategoryPatterns.find? fun p => p.2.any fun kw => decide (kw <:+: text)).map Prod.fst).getD
    "other".toList

/-- `collect_system_health`: a component is left out where its key is missing. -/
def collectSystemHealth (data : Option SystemData) : List HealthItem :=
  match data with
  | none => []
  | some data =>
      (if data.memoryHealth = .absent then []
        else [⟨"memory".toList, healthToInt lower data.memoryHealth⟩]) ++
      if data.processorHealth = .absent then []
        else [⟨"processor".toList, healthToInt lower data.processorHealth⟩]

def LogEntry.severe (e : LogEntry) : Bool := e.severity.is "Critical" || e.severity.is "Warning"

/-- The dictionary which is reported of an entry. -/
def LogEntry.report (e : LogEntry) : NewEntry :=
  ⟨e.id.text, lower e.severity.text, selCategoryFor lower e.messageId⟩

/-- The loop of `collect_sel_entries`: the new entries, and `seen_ids` behind it. -/
def newSelEntries : List Text → List LogEntry → List NewEntry × List Text
  | seen, [] => ([], seen)
  | seen, e :: rest =>
      if !e.severe then newSelEntries seen rest
      else if e.id.text ∈ seen then newSelEntries seen rest
      else
        let (new, seen) := newSelEntries (seen ++ [e.id.text]) rest
        (e.report lower :: new, seen)

/-- `collect_sel_entries`. -/
def collectSelEntries (seen : List Text) (data : Option (List LogEntry)) :
    List NewEntry × List Text :=
  match data with
  | none => ([], seen)
  | some entries => newSelEntries lower seen entries

end Collect

/-- The sensors which have a reading. -/
def readings (sensors : List Sensor) : List Reading :=
  sensors.filterMap fun s => s.reading.map fun value => ⟨s.name.getD "unknown".toList, value⟩

/-- `collect_thermal`. -/
def collectThermal (data : Option ThermalData) : List Reading × List Reading :=
  match data with
  | none => ([], [])
  | some data => (readings data.temperatures, readings data.fans)

/-- `collect_power`. -/
def collectPower (data : Option (List PowerSupply)) : List PsuItem :=
  (data.getD []).filterMap fun p => p.powerInputWatts.map fun watts =>
    ⟨p.name.getD (p.memberId.getD "unknown".toList), watts, if p.state.is "Enabled" then 1 else 0⟩

/-- `get_system_path`: the path at which a system was found. -/
def getSystemPath (env : Surroundings) : Option Text :=
  if env.embeddedSystem.isSome then some "/redfish/v1/Systems/System.Embedded.1/".toList
  else if env.firstSystem.isSome then some "/redfish/v1/Systems/1/".toList
  else none

/-! ## One run -/

/-- What `emit_metrics` is given. -/
structure Collected where
  health : List HealthItem
  selEntries : List NewEntry
  temperatures : List Reading
  fans : List Reading
  power : List PsuItem
  collectorUp : Nat
deriving DecidableEq, Repr

def Collected.nothing : Collected := ⟨[], [], [], [], [], 0⟩

/-- The state file: its `seen_sel_ids`, or none where it is absent or corrupt.  The order of the
ids is that of a set, and is not used. -/
abbrev StateFile := Option (List Text)

/-- `set(load_redfish_state(path).get("seen_sel_ids", []))`. -/
def loadSeen (file : StateFile) : List Text := file.getD []

/-- `main`: what it emits, and the state file behind it. -/
def main (lower : Text → Text) (file : StateFile) (env : Surroundings) : Collected × StateFile :=
  if strip env.host = [] then (.nothing, file)
  else
    match getSystemPath env with
    | none => (.nothing, some (loadSeen file))
    | some _ =>
        let health := collectSystemHealth lower env.system
        let (new, seen) := collectSelEntries lower (loadSeen file) env.entries
        let (temperatures, fans) := collectThermal env.thermal
        let power := collectPower env.power
        let up := !health.isEmpty || !temperatures.isEmpty || !fans.isEmpty || !power.isEmpty
        (⟨health, new, temperatures, fans, power, if up then 1 else 0⟩, some seen)

/-! ## Runs -/

variable (lower : Text → Text)

/-- The state file after the runs. -/
def fileAfter (run : List Surroundings) : StateFile :=
  run.foldl (fun file env => (main lower file env).2) none

/-- The new entries of a run behind others. -/
def newEntries (before : List Surroundings) (env : Surroundings) : List NewEntry :=
  (main lower (fileAfter lower before) env).1.selEntries

/-- The entries which the BMC returned to a run: none where it has no host, finds no system or
fails to get the log. -/
def Surroundings.returned (env : Surroundings) : List LogEntry :=
  if strip env.host = [] then []
  else
    match getSystemPath env with
    | none => []
    | some _ => env.entries.getD []

section Proofs

variable {lower} {seen : List Text} {entries log : List LogEntry} {e : LogEntry}

/-- What has been seen behind the loop. -/
theorem mem_seen_newSelEntries {id : Text} :
    id ∈ (newSelEntries lower seen entries).2 ↔
      id ∈ seen ∨ ∃ e ∈ entries, e.severe = true ∧ e.id.text = id := by
  induction entries generalizing seen with
  | nil => simp [newSelEntries]
  | cons e rest ih =>
      rw [newSelEntries]
      by_cases hsevere : e.severe = true
      · by_cases hseen : e.id.text ∈ seen
        · rw [if_neg (by simp [hsevere]), if_pos hseen, ih]
          constructor
          · intro h
            exact h.imp_right fun ⟨other, hother, hand⟩ => ⟨other, .tail _ hother, hand⟩
          · intro h
            rcases h with h | ⟨other, hother, hother', rfl⟩
            · exact Or.inl h
            · rcases List.mem_cons.mp hother with rfl | hother
              · exact Or.inl hseen
              · exact Or.inr ⟨other, hother, hother', rfl⟩
        · rw [if_neg (by simp [hsevere]), if_neg hseen]
          show id ∈ (newSelEntries lower (seen ++ [e.id.text]) rest).2 ↔ _
          rw [ih, List.mem_append, List.mem_singleton, List.exists_mem_cons_iff, or_assoc]
          simp only [hsevere, true_and, eq_comm]
      · rw [if_pos (by simpa using hsevere), ih, List.exists_mem_cons_iff]
        simp only [hsevere, Bool.false_eq_true, false_and, false_or]

/-- Of entries with different ids, the severe ones which were not seen are new. -/
theorem newSelEntries_eq (hids : (entries.map fun e => e.id.text).Nodup) :
    (newSelEntries lower seen entries).1 =
      (entries.filter fun e => e.severe && decide (e.id.text ∉ seen)).map
        (LogEntry.report lower) := by
  induction entries generalizing seen with
  | nil => rfl
  | cons e rest ih =>
      obtain ⟨hnew, hrest⟩ := List.nodup_cons.mp (List.map_cons ▸ hids)
      rw [newSelEntries]
      by_cases hsevere : e.severe = true
      · by_cases hseen : e.id.text ∈ seen
        · rw [if_neg (by simp [hsevere]), if_pos hseen, ih hrest,
            List.filter_cons_of_neg (by simp [hseen])]
        · rw [if_neg (by simp [hsevere]), if_neg hseen,
            List.filter_cons_of_pos (by simp [hsevere, hseen]), List.map_cons]
          refine congrArg (e.report lower :: ·) ((ih hrest).trans ?_)
          refine congrArg (List.map _) (List.filter_congr fun other hother => ?_)
          have hne : other.id.text ≠ e.id.text := fun h =>
            hnew (h ▸ List.mem_map_of_mem hother)
          simp [hne]
      · rw [if_pos (by simpa using hsevere), ih hrest,
          List.filter_cons_of_neg (by simp [hsevere])]

/-- A run does to the ids what the loop does with the entries it was returned. -/
theorem main_spec (lower : Text → Text) (file : StateFile) (env : Surroundings) :
    (main lower file env).1.selEntries = (newSelEntries lower (loadSeen file) env.returned).1 ∧
      loadSeen (main lower file env).2 = (newSelEntries lower (loadSeen file) env.returned).2 := by
  rw [main, Surroundings.returned]
  split
  · exact ⟨rfl, rfl⟩
  · split
    · exact ⟨rfl, rfl⟩
    · cases env.entries with
      | none => exact ⟨rfl, rfl⟩
      | some entries => exact ⟨rfl, rfl⟩

/-- **What the state file holds**: the ids of the severe entries which were returned so far. -/
theorem mem_fileAfter {run : List Surroundings} {id : Text} :
    id ∈ loadSeen (fileAfter lower run) ↔
      ∃ env ∈ run, ∃ e ∈ env.returned, e.severe = true ∧ e.id.text = id := by
  induction run using List.reverseRecOn with
  | nil => simp [fileAfter, loadSeen]
  | append_singleton run env ih =>
      have hlast : fileAfter lower (run ++ [env]) = (main lower (fileAfter lower run) env).2 := by
        rw [fileAfter, List.foldl_append]
        rfl
      rw [hlast, (main_spec lower _ env).2, mem_seen_newSelEntries, ih]
      simp only [List.mem_append, List.mem_singleton, or_and_right, exists_or, exists_eq_left]

/-- Entries of a log with the same id are the same. -/
theorem eq_of_id (hids : (log.map fun e => e.id.text).Nodup) {a b : LogEntry} (ha : a ∈ log)
    (hb : b ∈ log) (hid : a.id.text = b.id.text) : a = b :=
  List.inj_on_of_nodup_map hids ha hb hid

/-- A run reports an entry exactly when it is the first which the entry is returned to. -/
theorem mem_newEntries_iff (hids : (log.map fun e => e.id.text).Nodup)
    {before : List Surroundings} {env : Surroundings}
    (hbefore : ∀ b ∈ before, b.returned <+: log) (henv : env.returned <+: log) (he : e ∈ log)
    (hsevere : e.severe = true) :
    e.report lower ∈ newEntries lower before env ↔
      e ∈ env.returned ∧ ∀ b ∈ before, e ∉ b.returned := by
  have hreturned : (env.returned.map fun e => e.id.text).Nodup :=
    hids.sublist (henv.sublist.map _)
  have hseen : e.id.text ∈ loadSeen (fileAfter lower before) ↔ ∃ b ∈ before, e ∈ b.returned := by
    rw [mem_fileAfter]
    constructor
    · intro ⟨b, hb, other, hother, _, hid⟩
      exact ⟨b, hb, eq_of_id hids ((hbefore b hb).subset hother) he hid ▸ hother⟩
    · intro ⟨b, hb, hmem⟩
      exact ⟨b, hb, e, hmem, hsevere, rfl⟩
  have hnone : (∀ b ∈ before, e ∉ b.returned) ↔
      e.id.text ∉ loadSeen (fileAfter lower before) := by
    rw [hseen]
    simp
  rw [newEntries, (main_spec lower _ env).1, newSelEntries_eq hreturned, hnone, List.mem_map]
  constructor
  · intro ⟨other, hother, hreport⟩
    obtain ⟨hmem, hkept⟩ := List.mem_filter.mp hother
    have hid : other.id.text = e.id.text := congrArg NewEntry.id hreport
    obtain rfl := eq_of_id hids (henv.subset hmem) he hid
    exact ⟨hmem, of_decide_eq_true (Bool.and_eq_true_iff.mp hkept).2⟩
  · intro ⟨hmem, hnew⟩
    exact ⟨e, List.mem_filter.mpr ⟨hmem, by simp [hsevere, hnew]⟩, rfl⟩

end Proofs

/-- **Each entry is new once.**  Let the runs be returned beginnings of a log whose ids are
different.  A Critical or Warning entry which is returned to some run is among the new entries of
one run, the first which it is returned to. -/
theorem each_entry_once (lower : Text → Text) (log : List LogEntry)
    (hids : (log.map fun e => e.id.text).Nodup) (run : List Surroundings)
    (hrun : ∀ env ∈ run, env.returned <+: log) (e : LogEntry) (hsevere : e.severe = true)
    (he : ∃ env ∈ run, e ∈ env.returned) :
    ∃ m ∈ moments run, (e ∈ m.2.1.returned ∧ ∀ env ∈ m.1, e ∉ env.returned) ∧
      ∀ n ∈ moments run, e.report lower ∈ newEntries lower n.1 n.2.1 ↔ n = m := by
  obtain ⟨m, hm, hreturned, hbefore⟩ := exists_first he
  obtain ⟨env, henv, hmem⟩ := he
  have hlog : e ∈ log := (hrun env henv).subset hmem
  refine ⟨m, hm, ⟨hreturned, hbefore⟩, fun n hn => ?_⟩
  have hruns : (∀ b ∈ n.1, b.returned <+: log) ∧ n.2.1.returned <+: log := by
    rw [mem_moments.mp hn] at hrun
    exact ⟨fun b hb => hrun b (by simp [hb]), hrun n.2.1 (by simp)⟩
  rw [mem_newEntries_iff hids hruns.1 hruns.2 hlog hsevere]
  constructor
  · intro ⟨hnreturned, hnbefore⟩
    exact first_unique hn hm hnreturned hreturned hnbefore hbefore
  · intro h
    rw [h]
    exact ⟨hreturned, hbefore⟩

section Witness

def psuEntry : LogEntry := ⟨.str "41".toList, .str "Critical".toList, .str "PSU0003".toList⟩

def fanEntry : LogEntry := ⟨.str "42".toList, .str "Warning".toList, .null⟩

def informationEntry : LogEntry := ⟨.str "43".toList, .str "OK".toList, .absent⟩

/-- A run with an answer of the log. -/
def bmcAnswers (entries : Option (List LogEntry)) : Surroundings where
  host := "10.0.0.7".toList
  embeddedSystem := none
  firstSystem := some ⟨.absent, .absent⟩
  system := none
  entries := entries
  thermal := none
  power := none

/-- The log grows by two entries while the BMC does not answer. -/
def bmcRuns : List Surroundings :=
  [bmcAnswers (some [psuEntry]), { bmcAnswers none with firstSystem := none }, bmcAnswers none,
    bmcAnswers (some [psuEntry, fanEntry, informationEntry]),
    bmcAnswers (some [psuEntry, fanEntry, informationEntry])]

theorem fanEntry_once :
    ∃ m ∈ moments bmcRuns,
      (fanEntry ∈ m.2.1.returned ∧ ∀ env ∈ m.1, fanEntry ∉ env.returned) ∧
      ∀ n ∈ moments bmcRuns,
        fanEntry.report (List.map Char.toLower) ∈ newEntries (List.map Char.toLower) n.1 n.2.1 ↔
          n = m :=
  each_entry_once (List.map Char.toLower) [psuEntry, fanEntry, informationEntry] (by decide) bmcRuns
    (by decide +kernel) fanEntry (by decide) (by decide +kernel)

end Witness

end FaultOracle.Redfish
