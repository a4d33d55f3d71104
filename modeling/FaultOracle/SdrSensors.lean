import FaultOracle.BmcMetrics
import FaultOracle.PrometheusQuery
import FaultOracle.RegexSubstitution

/-!
# Sensors of the BMC

`bmc/ipmi_sensor_exporter.py` reads the sensors of a node from the output of `ipmitool sdr`, and
flags those whose status is critical.  A line is left out unless its reading begins with a
number, and the pattern of the number has no sign.

`breaches_reported_iff`: the flags are right exactly when no sensor in a critical state reads
below zero.
-/

namespace FaultOracle.Sdr

open BacktrackingRegex PrometheusText PythonFloats
open FaultOracle.Aer (splitlines isDigit_of_ascii digitGroups_of_digits)
open FaultOracle.Bmc (sanitizeLabel clean_sanitizeLabel clean_label)
open FaultOracle.Remediation (isPySpace strip pythonFloat digitPart floatNumber)
open FaultOracle.Trace (CharTables isDot)
open GoStrings (unsigned toLower_of_isDigit)

/-! ## Lines -/

/-- What a sensor measures. -/
inductive UnitType
  | fanRpm
  | temperatureCelsius
  | voltageVolts
  | powerWatts
deriving DecidableEq

/-- What is read of a sensor, without its status. -/
structure Sensor where
  sensorName : Text
  value : PyFloat
  unitType : UnitType
  breach : Bool

def breachStatuses : List Text := ["upper critical".toList, "lower critical".toList]

section Parse

variable (U : CharTables)

/-- `UNIT_MAP`. -/
def unitMap : List (Re × UnitType) :=
  [(Re.bounded U.isWord (U.litIgnoreCase "RPM".toList), .fanRpm),
    (Re.bounded U.isWord (U.litIgnoreCase "degrees".toList ++ Re.plus isPySpace ++
      U.litIgnoreCase "C".toList), .temperatureCelsius),
    (Re.bounded U.isWord (U.litIgnoreCase "Volt".toList ++ .opt (U.litIgnoreCase "s".toList)),
      .voltageVolts),
    (Re.bounded U.isWord (U.litIgnoreCase "Watt".toList ++ .opt (U.litIgnoreCase "s".toList)),
      .powerWatts)]

/-- `[\d.]`. -/
def isNumeral (c : Char) : Bool := U.isDigit c || c == '.'

/-- The leading number of a reading, and what is behind it. -/
def reReading : Re :=
  .atStart ++ (.star isPySpace ++ .group 1 (Re.plus (isNumeral U)) ++ .star isPySpace ++
    .group 2 (.star isDot))

/-- The unit that a text names. -/
def unitOf (unitStr : Text) : Option UnitType :=
  ((unitMap U).find? fun p => (p.1.search unitStr).isSome).map Prod.snd

/-- The body of the loop; no letter outside ASCII has one of the statuses as its lower case. -/
def sdrSensor (line : Text) : Option Sensor :=
  match ((strip line).splitOn '|').map strip with
  | sensorName :: _ :: status :: reading :: _ => do
      let m ← (reReading U).matchStart reading
      let value ← pythonFloat U ((m.groups 1).getD [])
      let unitType ← unitOf U (strip ((m.groups 2).getD []))
      return ⟨sensorName, value, unitType, breachStatuses.contains (status.map Char.toLower)⟩
  | _ => none

/-- `parse_sdr_output`; a line break which `splitlines` counts twice adds an empty line, and such
a line is skipped. -/
def parseSdrOutput (raw : Text) : List Sensor := (splitlines raw).filterMap (sdrSensor U)

/-- The outcome of a node. -/
structure NodeSensors where
  node : Text
  up : Bool
  error : Option Text
  sensors : List Sensor

/-- `collect_node_sensors`, with what `ipmitool` has returned. -/
def collectNodeSensors (node : Text) (raw error : Option Text) : NodeSensors :=
  if error.getD [] ≠ [] then ⟨node, false, error, []⟩
  else ⟨node, true, none, parseSdrOutput U (raw.getD [])⟩

end Parse

/-! ## The text -/

/-- `METRIC_DEFS`. -/
def metricDefs : List (UnitType × String × String) :=
  [(.fanRpm, "ipmi_fan_rpm", "Fan speed in RPM reported by IPMI SDR."),
    (.temperatureCelsius, "ipmi_temperature_celsius",
      "Temperature in degrees Celsius reported by IPMI SDR."),
    (.voltageVolts, "ipmi_voltage_volts", "Voltage in Volts reported by IPMI SDR."),
    (.powerWatts, "ipmi_power_watts", "Power in Watts reported by IPMI SDR.")]

def sensorLabels (node : Text) (s : Sensor) : List (Text × Text) :=
  [("node".toList, sanitizeLabel node), ("sensor_name".toList, sanitizeLabel s.sensorName)]

/-- The metric of a unit. -/
def readingFamily (results : List NodeSensors) (d : UnitType × String × String) : MetricFamily where
  name := d.2.1.toList
  help := d.2.2.toList
  kind := "gauge".toList
  samples := results.flatMap fun r => (r.sensors.filter fun s => s.unitType = d.1).map fun s =>
    (sensorLabels r.node s, s.value.repr)

def breachFamily (results : List NodeSensors) : MetricFamily where
  name := "ipmi_sensor_threshold_breach".toList
  help := "1 if sensor is at Upper/Lower Critical threshold.".toList
  kind := "gauge".toList
  samples := results.flatMap fun r => r.sensors.map fun s =>
    (sensorLabels r.node s, natText (if s.breach then 1 else 0))

/-- The metrics which `emit_metrics` writes. -/
def families (results : List NodeSensors) (now : PyFloat) : List MetricFamily :=
  metricDefs.map (readingFamily results) ++ [breachFamily results,
    { name := "ipmi_sensor_collector_last_run_timestamp".toList
      help := "Unix timestamp of last sensor collector run.".toList
      kind := "gauge".toList
      samples := [([], (now.fixed 3).toList)] }]

/-- `emit_metrics`. -/
def emitMetrics (results : List NodeSensors) (now : PyFloat) : Text :=
  exposition (families results now)

/-- The sample of the breach flag. -/
def breachSample (node : Text) (s : Sensor) : PrometheusText.Sample where
  name := "ipmi_sensor_threshold_breach".toList
  labels := sensorLabels node s
  value := natText (if s.breach then 1 else 0)

/-! ## Readings -/

/-- The units of the documented output. -/
def documentedUnits : List Text :=
  ["RPM".toList, "degrees C".toList, "Volts".toList, "Watts".toList]

/-- A number in a documented unit. -/
structure Reading where
  negative : Bool
  whole : Text
  fraction : Text
  unit : Text
  whole_ne : whole ≠ []
  whole_digits : ∀ c ∈ whole, c.isDigit = true
  fraction_digits : ∀ c ∈ fraction, c.isDigit = true
  unit_documented : unit ∈ documentedUnits

/-- The number without its sign. -/
def Reading.number (r : Reading) : Text :=
  r.whole ++ if r.fraction = [] then [] else '.' :: r.fraction

def Reading.text (r : Reading) : Text :=
  (if r.negative then ['-'] else []) ++ (r.number ++ ' ' :: r.unit)

/-- A line with at least four fields, with its sensor, status and reading. -/
def HasFields (line sensorName status reading : Text) : Prop :=
  ∃ address rest,
    ((strip line).splitOn '|').map strip = sensorName :: address :: status :: reading :: rest

/-- A critical status, in any case of its letters. -/
def IsCritical (status : Text) : Prop := status.map Char.toLower ∈ breachStatuses

instance : DecidablePred IsCritical := fun status =>
  inferInstanceAs (Decidable (status.map Char.toLower ∈ breachStatuses))

/-- What a run writes for the outputs of its nodes. -/
def runText (U : CharTables) (run : List (Text × Text)) (now : PyFloat) : Text :=
  emitMetrics (run.map fun r => collectNodeSensors U r.1 (some r.2) none) now

/-- The breach samples of a text are those of the lines of the outputs, in their order; a line
with a critical status and a number in a documented unit has one of value 1 for its sensor, and
a line with another status has none. -/
structure BreachesReported (U : CharTables) (run : List (Text × Text)) : Prop where
  sampled : ∀ now, (parse (runText U run now)).map
      (List.filter fun s => s.name = "ipmi_sensor_threshold_breach".toList) =
    some (run.flatMap fun r => (splitlines r.2).flatMap fun line =>
      (sdrSensor U line).toList.map (breachSample r.1))
  critical : ∀ r ∈ run, ∀ line ∈ splitlines r.2, ∀ name status (reading : Reading),
    HasFields line name status reading.text → IsCritical status →
      ∃ s, sdrSensor U line = some s ∧ breachSample r.1 s =
        ⟨"ipmi_sensor_threshold_breach".toList, [("node".toList, sanitizeLabel r.1),
          ("sensor_name".toList, sanitizeLabel name)], "1".toList⟩
  others : ∀ r ∈ run, ∀ line ∈ splitlines r.2, ∀ name status reading,
    HasFields line name status reading → ¬ IsCritical status →
      ∀ s, sdrSensor U line = some s → (breachSample r.1 s).value ≠ "1".toList

example : (parseSdrOutput FaultOracle.Trace.asciiTables
    "Fan1 RPM | 0x01 | ok | 1200 RPM\nInlet | 0x02 | Lower Critical | 2.5 degrees C".toList).map
      (fun s => (s.value, s.breach)) = [(.fin 1200, false), (.fin (5 / 2), true)] := by
  decide +kernel

/-! ### What is read of a reading -/

section Reading

variable {U : CharTables}

/-- A reading is written with digits and points. -/
theorem digit_or_point (r : Reading) : ∀ d ∈ r.number, d.isDigit = true ∨ d = '.' := by
  intro d hd
  rcases List.mem_append.mp hd with hd | hd
  · exact .inl (r.whole_digits d hd)
  · split at hd
    · cases hd
    · rcases List.mem_cons.mp hd with rfl | hd
      · exact .inr rfl
      · exact .inl (r.fraction_digits d hd)

/-- A reading is a numeral. -/
theorem isNumeral_number (r : Reading) : ∀ c ∈ r.number, isNumeral U c = true := by
  intro c hc
  rcases digit_or_point r c hc with hc | rfl
  · rw [isNumeral, isDigit_of_ascii hc, Bool.true_or]
  · simp [isNumeral]

/-- A number begins with a digit. -/
theorem exists_digit (r : Reading) : ∃ c rest, r.number = c :: rest ∧ c.isDigit = true := by
  obtain ⟨c, w, hw⟩ := List.exists_cons_of_ne_nil r.whole_ne
  exact ⟨c, w ++ _, by rw [Reading.number, hw, List.cons_append],
    r.whole_digits c (hw ▸ List.mem_cons_self)⟩

/-- A digit is no white space. -/
theorem not_isPySpace_of_isDigit {c : Char} (hc : c.isDigit = true) : isPySpace c = false :=
  FaultOracle.Trace.asciiTables.isPySpace_of_isDigit c hc

/-- **A number which is not negative** is found together with its unit. -/
theorem matchStart_reading (r : Reading) (hpos : r.negative = false) :
    ∃ m, (reReading U).matchStart r.text = some m ∧ m.groups 1 = some r.number ∧
      m.groups 2 = some r.unit := by
  obtain ⟨c, rest, hnumber, hdigit⟩ := exists_digit r
  have hunits : (documentedUnits.all fun unit =>
      !unit.head?.any isPySpace && unit.all isDot) = true := by decide
  obtain ⟨hhead, hdots⟩ := Bool.and_eq_true_iff.mp
    (List.all_eq_true.mp hunits r.unit r.unit_documented)
  have hstop : Stops isPySpace r.unit := by
    intro c hc
    rw [Option.mem_def.mp hc] at hhead
    simpa using hhead
  have hspace : isNumeral U ' ' = false := by
    rw [isNumeral, U.isDigit_ascii ' ' (by decide)]
    rfl
  have hfront : Stops isPySpace (r.number ++ (' ' :: r.unit)) := by
    rw [hnumber, List.cons_append, stops_cons]
    exact not_isPySpace_of_isDigit hdigit
  have hnone : Reads (.star isPySpace) [] (r.number ++ ([' '] ++ (r.unit ++ []))) id :=
    reads_star (fun _ h => by cases h) (by simpa using hfront)
  have hone := (reads_plus (hnumber ▸ List.cons_ne_nil c rest) (isNumeral_number r)
    (show Stops (isNumeral U) ([' '] ++ (r.unit ++ [])) by simpa using hspace)).group 1
  have hblank : Reads (.star isPySpace) [' '] (r.unit ++ []) id :=
    reads_star (List.forall_mem_singleton.mpr rfl) (by simpa using hstop)
  have htwo := (reads_star (List.all_eq_true.mp hdots) stops_nil).group 2
  have hmatch := (((hnone.append hone).append hblank).append htwo).matchStart
  have htext : r.text = [] ++ r.number ++ [' '] ++ r.unit ++ [] := by
    simp [Reading.text, hpos]
  rw [htext]
  exact ⟨_, hmatch, rfl, rfl⟩

/-- A negative number is not. -/
theorem matchStart_negative (r : Reading) (hneg : r.negative = true) :
    (reReading U).matchStart r.text = none := by
  refine matchStart_eq_none fun hat => ?_
  obtain ⟨w, hw, v, hv⟩ := hat
  have htext : r.text = '-' :: (r.number ++ ' ' :: r.unit) := by simp [Reading.text, hneg]
  rw [htext] at hv
  simp only [lang_append, lang_group, lang_star, lang_plus] at hw
  obtain ⟨_, _, ⟨_, _, ⟨blank, digits, hblank, ⟨hne, hdigits⟩, rfl⟩, _, rfl⟩, _, rfl⟩ := hw
  cases blank with
  | nil =>
      obtain ⟨c, rest, rfl⟩ := List.exists_cons_of_ne_nil hne
      obtain ⟨rfl, _⟩ := List.cons.inj hv
      have hminus := hdigits '-' List.mem_cons_self
      rw [isNumeral, U.isDigit_ascii '-' (by decide)] at hminus
      cases hminus
  | cons c blank =>
      obtain ⟨rfl, _⟩ := List.cons.inj hv
      cases hblank '-' List.mem_cons_self

/-- Without white space there is nothing to strip. -/
theorem strip_of_dark {s : Text} (hs : ∀ c ∈ s, isPySpace c = false) : strip s = s := by
  have hdrop : ∀ s : Text, (∀ c ∈ s, isPySpace c = false) → s.dropWhile isPySpace = s := by
    intro s hs
    cases s with
    | nil => rfl
    | cons c s => rw [List.dropWhile_cons_of_neg (by simp [hs c List.mem_cons_self])]
  rw [strip, hdrop s hs, hdrop _ fun c hc => hs c (List.mem_reverse.mp hc), List.reverse_reverse]

/-- A reading is read as a number. -/
theorem floatNumber_number (r : Reading) : ∃ q, floatNumber U r.number = some q := by
  have hmantissa : r.number.takeWhile (fun d => d ≠ 'e' ∧ d ≠ 'E') = r.number := by
    refine List.takeWhile_eq_self_iff.mpr fun d hd => ?_
    rcases digit_or_point r d hd with hd | rfl
    · have he : d ≠ 'e' := by rintro rfl; cases hd
      have hE : d ≠ 'E' := by rintro rfl; cases hd
      simp [he, hE]
    · rfl
  have hwhole : r.number.takeWhile (· ≠ '.') = r.whole := by
    have hplain : ∀ d ∈ r.whole, decide (d ≠ '.') = true := by
      intro d hd
      refine decide_eq_true ?_
      rintro rfl
      cases r.whole_digits '.' hd
    rw [Reading.number]
    split
    · rw [List.append_nil]
      exact List.takeWhile_eq_self_iff.mpr hplain
    · rw [List.takeWhile_append_of_pos hplain]
      simp
  have hfraction : (r.number.drop r.whole.length).drop 1 = r.fraction := by
    rw [Reading.number, List.drop_left]
    split
    · rename_i hnil
      rw [hnil]
      rfl
    · rfl
  have hwholePart : digitPart U r.whole = some r.whole := by
    rw [digitPart, if_neg r.whole_ne, digitGroups_of_digits U r.whole_ne r.whole_digits]
  have hfractionPart : digitPart U r.fraction = some r.fraction := by
    rw [digitPart]
    split
    · rename_i hnil
      rw [hnil]
    · rename_i hne
      exact digitGroups_of_digits U hne r.fraction_digits
  have hne : r.whole ++ r.fraction ≠ [] := List.append_ne_nil_of_left_ne_nil r.whole_ne _
  rw [floatNumber]
  simp only [hmantissa, hwhole, hfraction, hwholePart, hfractionPart, List.drop_length]
  exact ⟨_, if_neg hne⟩

/-- The number of a reading is one for `float`. -/
theorem pythonFloat_number (r : Reading) : ∃ x, pythonFloat U r.number = some x := by
  obtain ⟨c, rest, hnumber, hdigit⟩ := exists_digit r
  have hdark : ∀ d ∈ r.number, isPySpace d = false := by
    intro d hd
    rcases digit_or_point r d hd with hd | rfl
    · exact not_isPySpace_of_isDigit hd
    · rfl
  have hunsigned : unsigned r.number = r.number := by
    rw [hnumber]
    unfold unsigned
    split
    · rename_i heq
      obtain ⟨rfl, _⟩ := List.cons.inj heq
      cases hdigit
    · rename_i heq
      obtain ⟨rfl, _⟩ := List.cons.inj heq
      cases hdigit
    · rfl
  have hname : ∀ name : Text, (name.head?.all fun d => !d.isDigit) = true → name ≠ [] →
      r.number.map Char.toLower ≠ name := by
    intro name hhead hne heq
    rw [hnumber, List.map_cons, toLower_of_isDigit hdigit] at heq
    rw [← heq] at hhead
    simp [hdigit] at hhead
  have hinf := hname "inf".toList (by decide) (by decide)
  have hinfinity := hname "infinity".toList (by decide) (by decide)
  have hnan := hname "nan".toList (by decide) (by decide)
  obtain ⟨q, hq⟩ := floatNumber_number (U := U) r
  rw [pythonFloat]
  simp only [strip_of_dark hdark, hunsigned, hq, hinf, hinfinity, hnan, or_self, if_false,
    Option.map_some]
  exact ⟨_, rfl⟩

/-- Every documented unit is known. -/
theorem unitOf_documented {unit : Text} (h : unit ∈ documentedUnits) :
    ∃ unitType, unitOf U (strip unit) = some unitType := by
  have hword : ∀ c : Char, c.toNat < 128 → c.isAlphanum = true → U.isWord c = true := by
    intro c hascii hc
    rw [U.isWord_ascii c hascii, hc, Bool.true_or]
  have hfound : ∀ {a : Re} {unitType : UnitType} {unit : Text},
      (Re.bounded U.isWord a, unitType) ∈ unitMap U →
      ((Re.bounded U.isWord a).search unit).isSome →
      ∃ unitType, unitOf U unit = some unitType := by
    intro a unitType unit hp hsearch
    have hsome : ((unitMap U).find? fun p => (p.1.search unit).isSome).isSome :=
      List.find?_isSome.mpr ⟨_, hp, hsearch⟩
    obtain ⟨q, hq⟩ := Option.isSome_iff_exists.mp hsome
    exact ⟨q.2, by rw [unitOf, hq]; rfl⟩
  have hplain := U.plain_litIgnoreCase
  simp only [documentedUnits, List.mem_cons, List.not_mem_nil, or_false] at h
  rcases h with rfl | rfl | rfl | rfl
  · refine hfound List.mem_cons_self (search_bounded_isSome (hplain _) ?_ ?_ ?_)
    · exact U.lang_litIgnoreCase (by decide)
    · exact hword 'R' (by decide) (by decide)
    · exact hword 'M' (by decide) (by decide)
  · refine hfound (List.mem_cons_of_mem _ List.mem_cons_self)
      (search_bounded_isSome ⟨⟨hplain _, by simp⟩, hplain _⟩ ?_ ?_ ?_)
    · have hblank : (Re.plus isPySpace).Lang [' '] :=
        lang_plus.mpr ⟨List.cons_ne_nil _ _, List.forall_mem_singleton.mpr rfl⟩
      exact ⟨_, _, ⟨_, [' '], U.lang_litIgnoreCase (by decide), hblank, rfl⟩,
        U.lang_litIgnoreCase (by decide), rfl⟩
    · exact hword 'd' (by decide) (by decide)
    · exact hword 'C' (by decide) (by decide)
  · refine hfound (List.mem_cons_of_mem _ (List.mem_cons_of_mem _ List.mem_cons_self))
      (search_bounded_isSome ⟨hplain _, hplain _⟩ ?_ ?_ ?_)
    · exact ⟨_, _, U.lang_litIgnoreCase (by decide), .inl (U.lang_litIgnoreCase (by decide)), rfl⟩
    · exact hword 'V' (by decide) (by decide)
    · exact hword 's' (by decide) (by decide)
  · refine hfound (List.mem_cons_of_mem _ (List.mem_cons_of_mem _
      (List.mem_cons_of_mem _ List.mem_cons_self))) (search_bounded_isSome ⟨hplain _, hplain _⟩
        ?_ ?_ ?_)
    · exact ⟨_, _, U.lang_litIgnoreCase (by decide), .inl (U.lang_litIgnoreCase (by decide)), rfl⟩
    · exact hword 'W' (by decide) (by decide)
    · exact hword 's' (by decide) (by decide)

end Reading

/-! ## Lines with a status -/

section Lines

variable {U : CharTables} {line name status reading : Text} {s : Sensor}

/-- The sensor of a line has its name, and the flag of its status. -/
theorem sdrSensor_eq_some (hfields : HasFields line name status reading)
    (h : sdrSensor U line = some s) :
    s.sensorName = name ∧ s.breach = breachStatuses.contains (status.map Char.toLower) := by
  obtain ⟨address, rest, hparts⟩ := hfields
  rw [sdrSensor, hparts] at h
  obtain ⟨m, _, h⟩ := Option.bind_eq_some_iff.mp h
  obtain ⟨value, _, h⟩ := Option.bind_eq_some_iff.mp h
  obtain ⟨unitType, _, h⟩ := Option.bind_eq_some_iff.mp h
  cases h
  exact ⟨rfl, rfl⟩

/-- A line whose number is not negative is one of a sensor. -/
theorem sdrSensor_reading {r : Reading} (hfields : HasFields line name status r.text)
    (hpos : r.negative = false) : ∃ s, sdrSensor U line = some s := by
  obtain ⟨address, rest, hparts⟩ := hfields
  obtain ⟨m, hm, hone, htwo⟩ := matchStart_reading (U := U) r hpos
  obtain ⟨value, hvalue⟩ := pythonFloat_number (U := U) r
  obtain ⟨unitType, hunit⟩ := unitOf_documented (U := U) r.unit_documented
  rw [sdrSensor, hparts]
  refine ⟨⟨name, value, unitType, breachStatuses.contains (status.map Char.toLower)⟩, ?_⟩
  refine Option.bind_eq_some_iff.mpr ⟨m, hm, ?_⟩
  rw [hone, htwo]
  refine Option.bind_eq_some_iff.mpr ⟨value, hvalue, ?_⟩
  exact Option.bind_eq_some_iff.mpr ⟨unitType, hunit, rfl⟩

/-- A line whose number is negative is not. -/
theorem sdrSensor_negative {r : Reading} (hfields : HasFields line name status r.text)
    (hneg : r.negative = true) : sdrSensor U line = none := by
  obtain ⟨address, rest, hparts⟩ := hfields
  rw [sdrSensor, hparts]
  exact Option.bind_eq_none_iff.mpr fun m hm => by
    rw [matchStart_negative r hneg] at hm
    cases hm

/-- The sample of a breach is one exactly when there is one. -/
theorem value_breachSample (node : Text) :
    (breachSample node s).value = "1".toList ↔ s.breach = true := by
  have hvalue : (breachSample node s).value = natText (if s.breach then 1 else 0) := rfl
  rw [hvalue]
  cases s.breach with
  | true => exact iff_of_true (by decide) rfl
  | false => exact iff_of_false (by decide) Bool.false_ne_true

end Lines

/-! ## Runs -/

section Runs

variable {U : CharTables} {run : List (Text × Text)} {results : List NodeSensors} {now : PyFloat}

/-- The labels of a sensor are clean. -/
theorem sensorLabels_clean (node : Text) (s : Sensor) :
    ∀ l ∈ sensorLabels node s, isLabelName l.1 = true ∧ Clean l.2 :=
  List.forall_mem_cons.mpr ⟨clean_label (by decide) (clean_sanitizeLabel _),
    List.forall_mem_singleton.mpr (clean_label (by decide) (clean_sanitizeLabel _))⟩

/-- The families of the sensors are well formed. -/
theorem wellFormed_families : ∀ f ∈ families results now, f.WellFormed := by
  have hnamed : ∀ d ∈ metricDefs, wellNamed d.2.1.toList d.2.2.toList "gauge".toList = true :=
    List.forall_mem_cons.mpr ⟨by decide, List.forall_mem_cons.mpr ⟨by decide,
      List.forall_mem_cons.mpr ⟨by decide, List.forall_mem_singleton.mpr (by decide)⟩⟩⟩
  intro f hf
  rcases List.mem_append.mp hf with hf | hf
  · obtain ⟨d, hd, rfl⟩ := List.mem_map.mp hf
    refine wellFormed_mk (hnamed d hd) fun sample hsample => ?_
    obtain ⟨r, _, hsample⟩ := List.mem_flatMap.mp hsample
    obtain ⟨s, _, rfl⟩ := List.mem_map.mp hsample
    exact ⟨sensorLabels_clean r.node s, isNumber_repr s.value⟩
  · rcases List.mem_cons.mp hf with rfl | hf
    · refine wellFormed_mk (by decide +kernel) fun sample hsample => ?_
      obtain ⟨r, _, hsample⟩ := List.mem_flatMap.mp hsample
      obtain ⟨s, _, rfl⟩ := List.mem_map.mp hsample
      exact ⟨sensorLabels_clean r.node s, isNumber_natText _⟩
    · rw [List.mem_singleton.mp hf]
      exact wellFormed_unlabelled (by decide +kernel) (isNumber_fixed 3 (by decide) now)

/-- The families of the sensors have distinct names. -/
theorem nodup_families : ((families results now).map MetricFamily.name).Nodup := by
  have hnames : (families results now).map MetricFamily.name =
      ["ipmi_fan_rpm".toList, "ipmi_temperature_celsius".toList, "ipmi_voltage_volts".toList,
        "ipmi_power_watts".toList, "ipmi_sensor_threshold_breach".toList,
        "ipmi_sensor_collector_last_run_timestamp".toList] := rfl
  rw [hnames]
  decide

/-- The breach samples of a run are those of its lines. -/
theorem parse_runText (now : PyFloat) : (parse (runText U run now)).map
      (List.filter fun s => s.name = "ipmi_sensor_threshold_breach".toList) =
    some (run.flatMap fun r => (splitlines r.2).flatMap fun line =>
      (sdrSensor U line).toList.map (breachSample r.1)) := by
  have hnode : ∀ r : Text × Text, collectNodeSensors U r.1 (some r.2) none =
      ⟨r.1, true, none, parseSdrOutput U r.2⟩ := fun r => if_neg (not_not.mpr rfl)
  have hlines : ∀ r : Text × Text, (parseSdrOutput U r.2).map (breachSample r.1) =
      (splitlines r.2).flatMap fun line => (sdrSensor U line).toList.map (breachSample r.1) := by
    intro r
    rw [parseSdrOutput, List.filterMap_eq_flatMap_toList, List.map_flatMap]
  have hbreaches : ∀ results, (breachFamily results).toSamples =
      results.flatMap fun r => r.sensors.map (breachSample r.node) := by
    intro results
    unfold MetricFamily.toSamples breachFamily
    rw [List.map_flatMap]
    simp only [List.map_map]
    rfl
  have hfamily : ∀ results, breachFamily results ∈ families results now := fun results =>
    List.mem_append_right _ List.mem_cons_self
  rw [runText, emitMetrics, parse_exposition wellFormed_families, Option.map_some]
  refine congrArg some ((filter_toSamples nodup_families (hfamily _)).trans ?_)
  rw [hbreaches, List.flatMap_map]
  simp only [hnode, hlines]

/-- **The flags are right** exactly when no sensor in a critical state reads below zero. -/
theorem breaches_reported_iff (U : CharTables) (run : List (Text × Text)) :
    BreachesReported U run ↔ ∀ r ∈ run, ∀ line ∈ splitlines r.2,
      ∀ name status (reading : Reading), HasFields line name status reading.text →
        IsCritical status → reading.negative = false := by
  constructor
  · intro h r hr line hline name status reading hfields hcritical
    obtain ⟨s, hs, _⟩ := h.critical r hr line hline name status reading hfields hcritical
    cases hneg : reading.negative with
    | false => rfl
    | true =>
        rw [sdrSensor_negative hfields hneg] at hs
        cases hs
  · intro h
    refine ⟨parse_runText, ?_, ?_⟩
    · intro r hr line hline name status reading hfields hcritical
      obtain ⟨s, hs⟩ := sdrSensor_reading (U := U) hfields
        (h r hr line hline name status reading hfields hcritical)
      obtain ⟨hname, hbreach⟩ := sdrSensor_eq_some hfields hs
      rw [List.contains_iff_mem.mpr hcritical] at hbreach
      refine ⟨s, hs, ?_⟩
      unfold breachSample sensorLabels
      rw [hname, hbreach]
      rfl
    · intro r hr line hline name status reading hfields hother s hs
      obtain ⟨_, hbreach⟩ := sdrSensor_eq_some hfields hs
      rw [ne_eq, value_breachSample, hbreach, List.contains_iff_mem]
      exact hother

/-- The temperature of an inlet in a lower critical state is below zero. -/
theorem frozen_inlet_lost : ¬ BreachesReported FaultOracle.Trace.asciiTables
    [("n1".toList, "Inlet | 0x01 | Lower Critical | -5 degrees C".toList)] := by
  let reading : Reading :=
    { negative := true, whole := "5".toList, fraction := [], unit := "degrees C".toList
      whole_ne := by decide, whole_digits := List.all_eq_true.mp (by decide)
      fraction_digits := List.forall_mem_nil _, unit_documented := by decide }
  have hline : "Inlet | 0x01 | Lower Critical | -5 degrees C".toList ∈
      splitlines "Inlet | 0x01 | Lower Critical | -5 degrees C".toList := by decide
  have hfields : HasFields "Inlet | 0x01 | Lower Critical | -5 degrees C".toList "Inlet".toList
      "Lower Critical".toList reading.text := ⟨"0x01".toList, [], by decide⟩
  intro h
  obtain ⟨s, hs, _⟩ := h.critical _ List.mem_cons_self _ hline _ _ reading hfields (by decide)
  rw [sdrSensor_negative hfields rfl] at hs
  cases hs

end Runs

end FaultOracle.Sdr
