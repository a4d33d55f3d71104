import FaultOracle.FloatRepr
import FaultOracle.MetricFamilies
import FaultOracle.RedfishCollector
import FaultOracle.SelPoller

/-!
# The metrics of the BMC collectors

`emit_metrics` of `bmc/ipmi_sel_poller.py` and of `bmc/redfish_collector.py`.  Both write a sample
with the value 1 for each event of the run, under a metric which they declare a counter.

`collectors_accumulate_iff` says for which runs no text has a series twice and no counter falls.
-/

namespace FaultOracle.Bmc

open BacktrackingRegex PythonFloats PrometheusText
open FaultOracle.Trace (CharTables)
open FaultOracle.Remediation (strip)

/-! ## Labels -/

/-- `s.replace(a, b)`, of single characters. -/
def replaceChar (a b : Char) (s : Text) : Text := s.map fun c => if c = a then b else c

/-- `sanitize_label`, of which both collectors have a copy. -/
def sanitizeLabel (val : Text) : Text :=
  let s := strip (replaceChar '\n' ' ' (replaceChar '\\' '/' (replaceChar '"' '\'' val)))
  if s = [] then "unknown".toList else s

section Sensors

open Re

variable (U : CharTables)

/-- `SENSOR_TYPE_PATTERNS`. -/
def sensorTypePatterns : List (Re × Text) :=
  [(U.litIgnoreCase "CPU".toList, "cpu".toList),
    (U.litIgnoreCase "Mem".toList, "memory".toList),
    (alt (U.litIgnoreCase "Power".toList)
      (alt (U.litIgnoreCase "PS".toList ++ one U.isDigit) (U.litIgnoreCase "PSU".toList)),
      "power".toList),
    (alt (U.litIgnoreCase "Therm".toList)
      (alt (U.litIgnoreCase "Temp".toList) (U.litIgnoreCase "Fan".toList)), "thermal".toList)]

/-- `CRITICAL_SENSOR_PATTERNS`. -/
def criticalSensorPatterns : Re :=
  alt (U.litIgnoreCase "CPU".toList) (alt (U.litIgnoreCase "Memory".toList)
    (alt (U.litIgnoreCase "Power".toList) (U.litIgnoreCase "Thermal".toList)))

/-- `sensor_type_for`. -/
def sensorTypeFor (sensorName : Text) : Text :=
  (((sensorTypePatterns U).find? fun p => (p.1.search sensorName).isSome).map Prod.snd).getD
    "other".toList

/-- `classify_severity`; no letter outside ASCII has one of `assert` as its lower case. -/
def classifySeverity (eventDirection sensorName : Text) : Text :=
  if (strip eventDirection).map Char.toLower = "assert".toList ∧
      ((criticalSensorPatterns U).search sensorName).isSome then
    "critical".toList
  else "warning".toList

/-- The labels of an event of a node. -/
def eventLabels (node : Text) (e : SelEvent) : Text × Text × Text :=
  (sanitizeLabel node, sanitizeLabel (sensorTypeFor U e.sensorName),
    sanitizeLabel (classifySeverity U e.eventDirection e.sensorName))

end Sensors

/-! ## The texts -/

/-- The labels of a sample of `ipmi_sel_event_total`. -/
def eventLabelSet (l : Text × Text × Text) : List (Text × Text) :=
  [("node".toList, l.1), ("sensor_type".toList, l.2.1), ("severity".toList, l.2.2)]

def nodeLabel (node : Text) : List (Text × Text) := [("node".toList, sanitizeLabel node)]

/-- `poll_errors.get(node, 0)`. -/
def errorsOf (pollErrors : List (Text × Nat)) (r : NodeResult) : Nat :=
  (pollErrors.lookup r.node).getD 0

/-- The labels of the events of a run. -/
def eventsOf (U : CharTables) (results : List NodeResult) : List (Text × Text × Text) :=
  results.flatMap fun r => r.newEvents.map (eventLabels U r.node)

/-- The metrics which `emit_metrics` of the SEL poller writes. -/
def selFamilies (U : CharTables) (results : List NodeResult) (pollErrors : List (Text × Nat))
    (now : PyFloat) : List MetricFamily :=
  [{ name := "ipmi_sel_event_total".toList
     help := "Total IPMI SEL events observed per node.".toList
     kind := "counter".toList
     samples := (results.flatMap fun r => r.newEvents.map (eventLabels U r.node)).map fun l =>
       (eventLabelSet l, "1".toList) },
    { name := "ipmi_sel_last_event_timestamp".toList
      help := "Unix timestamp of the most recent SEL event.".toList
      kind := "gauge".toList
      samples := results.filterMap fun r => r.lastEventTs.map fun ts =>
        (nodeLabel r.node, (ts.fixed 3).toList) },
    { name := "ipmi_sel_last_record_id".toList
      help := "Last SEL record ID seen per node.".toList
      kind := "gauge".toList
      samples := results.map fun r => (nodeLabel r.node, intText r.lastRecordId) },
    { name := "ipmi_bmc_poll_error_total".toList
      help := "Total ipmitool poll errors per node.".toList
      kind := "counter".toList
      samples := results.map fun r => (nodeLabel r.node, natText (errorsOf pollErrors r)) },
    { name := "ipmi_bmc_collector_up".toList
      help := "1 if the BMC was reachable on the last poll.".toList
      kind := "gauge".toList
      samples := results.map fun r => (nodeLabel r.node, natText (if r.up then 1 else 0)) },
    { name := "ipmi_bmc_collector_last_run_timestamp".toList
      help := "Unix timestamp of the last collector run.".toList
      kind := "gauge".toList
      samples := [([], (now.fixed 3).toList)] }]

/-- `emit_metrics` of the SEL poller. -/
def emitMetrics (U : CharTables) (results : List NodeResult) (pollErrors : List (Text × Nat))
    (now : PyFloat) : Text :=
  exposition (selFamilies U results pollErrors now)

/-- The counters which it declares. -/
def selCounters : List Text := ["ipmi_sel_event_total".toList, "ipmi_bmc_poll_error_total".toList]

/-- What a run gives to `emit_metrics`, and the time at which it does. -/
structure Report where
  results : List NodeResult
  pollErrors : List (Text × Nat)
  now : PyFloat

def Report.text (U : CharTables) (r : Report) : Text := emitMetrics U r.results r.pollErrors r.now

/-- The reports of successive runs of `main`, the first of which finds this state file. -/
def reports (I : Interpreter) : StateFile → List (Surroundings × PyFloat) → List Report
  | _, [] => []
  | file, (env, now) :: runs =>
      match main I file env with
      | none => reports I file runs
      | some (l, file) => ⟨l.results, l.pollErrors, now⟩ :: reports I file runs

/-- The texts which they write. -/
def texts (I : Interpreter) (file : StateFile) (runs : List (Surroundings × PyFloat)) : List Text :=
  (reports I file runs).map (Report.text I.tables)

section Labels

variable {s : Text} {a b c : Char}

theorem not_mem_replaceChar_self (hab : b ≠ a) : a ∉ replaceChar a b s := by
  intro h
  obtain ⟨c, _, hc⟩ := List.mem_map.mp h
  split at hc
  · exact hab hc
  · rename_i hne
    exact hne hc

theorem not_mem_replaceChar (hb : b ≠ c) (hs : c ∉ s) : c ∉ replaceChar a b s := by
  intro h
  obtain ⟨d, hd, hc⟩ := List.mem_map.mp h
  split at hc
  · exact hb hc
  · exact hs (hc ▸ hd)

/-- Stripping adds no character. -/
theorem mem_of_mem_strip (h : c ∈ strip s) : c ∈ s := by
  rw [strip, List.mem_reverse] at h
  exact (List.dropWhile_sublist _).subset
    (List.mem_reverse.mp ((List.dropWhile_sublist _).subset h))

/-- **A sanitized label needs no escape.** -/
theorem clean_sanitizeLabel (val : Text) : Clean (sanitizeLabel val) := by
  rw [sanitizeLabel]
  split
  · decide
  · refine clean_iff.mpr ⟨fun h => ?_, fun h => ?_, fun h => ?_⟩
    · exact not_mem_replaceChar (by decide) (not_mem_replaceChar_self (by decide))
        (mem_of_mem_strip h)
    · exact not_mem_replaceChar (by decide) (not_mem_replaceChar (by decide)
        (not_mem_replaceChar_self (by decide))) (mem_of_mem_strip h)
    · exact not_mem_replaceChar_self (by decide) (mem_of_mem_strip h)

/-- One label with a sanitized value. -/
theorem sanitized_singleton {name : Text} (hname : isLabelName name = true) (val : Text) :
    ∀ l ∈ [(name, sanitizeLabel val)], isLabelName l.1 = true ∧ Clean l.2 :=
  List.forall_mem_singleton.mpr ⟨hname, clean_sanitizeLabel val⟩

/-- A clean value is a valid label under a valid name. -/
theorem clean_label {name v : Text} (hname : isLabelName name = true) (hv : Clean v) :
    isLabelName (name, v).1 = true ∧ Clean (name, v).2 := ⟨hname, hv⟩

/-- Two labels of one name are the same exactly when their values are. -/
theorem singleton_perm_iff {name v w : Text} : [(name, v)].Perm [(name, w)] ↔ v = w := by
  rw [List.singleton_perm_singleton, Prod.mk.injEq]
  exact and_iff_right rfl

/-- The number which `natText` writes. -/
theorem numberOf_natText (n : Nat) : numberOf (natText n) = n := Nat.ofDigitChars_ten_toDigits

end Labels

section Sel

variable {U : CharTables} {results : List NodeResult} {pollErrors : List (Text × Nat)}
  {now : PyFloat}

/-- The labels of an event are clean. -/
theorem eventLabels_clean (node : Text) (e : SelEvent) :
    Clean (eventLabels U node e).1 ∧ Clean (eventLabels U node e).2.1 ∧
      Clean (eventLabels U node e).2.2 := by
  simp only [eventLabels, clean_sanitizeLabel, and_self]

/-- The families of the poller are well formed. -/
theorem wellFormed_selFamilies :
    ∀ f ∈ selFamilies U results pollErrors now, f.WellFormed := by
  have hnode : ∀ r : NodeResult, ∀ l ∈ nodeLabel r.node, isLabelName l.1 = true ∧ Clean l.2 :=
    fun r => sanitized_singleton (by decide) r.node
  have hnow : isNumber (now.fixed 3).toList = true := isNumber_fixed 3 (by decide) now
  refine List.forall_mem_cons.mpr ⟨?_, List.forall_mem_cons.mpr ⟨?_, List.forall_mem_cons.mpr
    ⟨?_, List.forall_mem_cons.mpr ⟨?_, List.forall_mem_cons.mpr ⟨?_,
      List.forall_mem_singleton.mpr ?_⟩⟩⟩⟩⟩
  · refine wellFormed_mk (by decide +kernel) fun s hs => ?_
    obtain ⟨l, hl, rfl⟩ := List.mem_map.mp hs
    obtain ⟨r, _, hl⟩ := List.mem_flatMap.mp hl
    obtain ⟨e, _, rfl⟩ := List.mem_map.mp hl
    obtain ⟨hnodeLabel, htype, hseverity⟩ := eventLabels_clean (U := U) r.node e
    have hone : isNumber "1".toList = true := by decide
    exact ⟨List.forall_mem_cons.mpr ⟨clean_label (by decide) hnodeLabel, List.forall_mem_cons.mpr
      ⟨clean_label (by decide) htype,
        List.forall_mem_singleton.mpr (clean_label (by decide) hseverity)⟩⟩, hone⟩
  · refine wellFormed_mk (by decide +kernel) fun s hs => ?_
    obtain ⟨r, _, hr⟩ := List.mem_filterMap.mp hs
    obtain ⟨ts, _, rfl⟩ := Option.map_eq_some_iff.mp hr
    exact ⟨hnode r, isNumber_fixed 3 (by decide) ts⟩
  · exact wellFormed_map (by decide +kernel) hnode fun r => isNumber_intText _
  · exact wellFormed_map (by decide +kernel) hnode fun r => isNumber_natText _
  · exact wellFormed_map (by decide +kernel) hnode fun r => isNumber_natText _
  · exact wellFormed_unlabelled (by decide +kernel) hnow

/-- The families of the poller have distinct names. -/
theorem nodup_selFamilies :
    ((selFamilies U results pollErrors now).map MetricFamily.name).Nodup := by
  have hnames : (selFamilies U results pollErrors now).map MetricFamily.name =
      ["ipmi_sel_event_total".toList, "ipmi_sel_last_event_timestamp".toList,
        "ipmi_sel_last_record_id".toList, "ipmi_bmc_poll_error_total".toList,
        "ipmi_bmc_collector_up".toList, "ipmi_bmc_collector_last_run_timestamp".toList] := rfl
  rw [hnames]
  decide

/-- Two nodes share their label exactly when they are the same once sanitized. -/
theorem nodeLabel_perm_iff (a b : NodeResult) :
    (nodeLabel a.node).Perm (nodeLabel b.node) ↔ sanitizeLabel a.node = sanitizeLabel b.node :=
  singleton_perm_iff

/-- Two events share their labels exactly when they are the same. -/
theorem eventLabelSet_perm_iff (a b : Text × Text × Text) :
    (eventLabelSet a).Perm (eventLabelSet b) ↔ id a = id b := by
  rw [labels_perm_iff (by rfl) (by simp [eventLabelSet]), eventLabelSet, eventLabelSet]
  simp [Prod.ext_iff]

/-- No two results of the report have the same node label, and no two of its events the same
labels. -/
structure Report.NoneTwice (U : CharTables) (r : Report) : Prop where
  nodes : (r.results.map fun result => sanitizeLabel result.node).Nodup
  events : (eventsOf U r.results).Nodup

/-- **When a text of the SEL poller is unambiguous.** -/
theorem unambiguous_sel_iff (U : CharTables) (r : Report) :
    Unambiguous (r.text U) ↔ r.NoneTwice U := by
  have hevents : (eventsOf U r.results).Nodup ↔ ((eventsOf U r.results).map id).Nodup := by
    rw [List.map_id]
  rw [Report.text, emitMetrics, unambiguous_iff wellFormed_selFamilies nodup_selFamilies]
  constructor
  · intro h
    exact ⟨(pairwise_labels_iff nodeLabel_perm_iff).mp (h _ (.tail _ (.tail _ (.head _)))),
      hevents.mpr ((pairwise_labels_iff eventLabelSet_perm_iff).mp (h _ (.head _)))⟩
  · intro ⟨hnodes, hnone⟩
    refine List.forall_mem_cons.mpr ⟨?_, List.forall_mem_cons.mpr ⟨?_, List.forall_mem_cons.mpr
      ⟨?_, List.forall_mem_cons.mpr ⟨?_, List.forall_mem_cons.mpr ⟨?_,
        List.forall_mem_singleton.mpr (List.pairwise_singleton _ _)⟩⟩⟩⟩⟩
    · exact (pairwise_labels_iff eventLabelSet_perm_iff).mpr (hevents.mp hnone)
    · refine List.pairwise_filterMap.mpr ((List.pairwise_map.mp hnodes).imp ?_)
      intro r r' hne s hs s' hs' hperm
      obtain ⟨_, _, rfl⟩ := Option.map_eq_some_iff.mp hs
      obtain ⟨_, _, rfl⟩ := Option.map_eq_some_iff.mp hs'
      exact hne ((nodeLabel_perm_iff r r').mp hperm)
    · exact (pairwise_labels_iff nodeLabel_perm_iff).mpr hnodes
    · exact (pairwise_labels_iff nodeLabel_perm_iff).mpr hnodes
    · exact (pairwise_labels_iff nodeLabel_perm_iff).mpr hnodes

/-- The counters of a run are kept by the next: its events come again, and no node has fewer
errors. -/
structure Report.KeptBy (U : CharTables) (a b : Report) : Prop where
  events : ∀ l ∈ eventsOf U a.results, l ∈ eventsOf U b.results
  errors : ∀ r ∈ a.results, 0 < errorsOf a.pollErrors r → ∃ r' ∈ b.results,
    sanitizeLabel r'.node = sanitizeLabel r.node ∧
      errorsOf a.pollErrors r ≤ errorsOf b.pollErrors r'

/-- The poller's counters keep their values exactly when each report keeps the samples. -/
theorem keeps_sel_iff (a b : Report) (ha : a.NoneTwice U) (hb : b.NoneTwice U) :
    (∀ name ∈ selCounters, ∀ labels, valueOf (a.text U) name labels ≤
      valueOf (b.text U) name labels) ↔ a.KeptBy U b := by
  have hevents : (∀ labels,
      numberAt ((eventsOf U a.results).map fun l => (eventLabelSet l, "1".toList)) labels ≤
        numberAt ((eventsOf U b.results).map fun l => (eventLabelSet l, "1".toList)) labels) ↔
      ∀ l ∈ eventsOf U a.results, l ∈ eventsOf U b.results := by
    have hone : numberOf "1".toList = 1 := by decide
    rw [numberAt_le_iff eventLabelSet_perm_iff (by simpa using ha.events)
      (by simpa using hb.events)]
    constructor
    · intro hle l hl
      obtain ⟨l', hl', heq, _⟩ := hle l hl (hone ▸ Nat.one_pos)
      have heq : l' = l := heq
      exact heq ▸ hl'
    · intro hsub l hl _
      exact ⟨l, hsub l hl, rfl, le_refl _⟩
  have herrors : (∀ labels,
      numberAt (a.results.map fun r => (nodeLabel r.node, natText (errorsOf a.pollErrors r)))
          labels ≤
        numberAt (b.results.map fun r => (nodeLabel r.node, natText (errorsOf b.pollErrors r)))
          labels) ↔
      ∀ r ∈ a.results, 0 < errorsOf a.pollErrors r → ∃ r' ∈ b.results,
        sanitizeLabel r'.node = sanitizeLabel r.node ∧
          errorsOf a.pollErrors r ≤ errorsOf b.pollErrors r' := by
    rw [numberAt_le_iff nodeLabel_perm_iff ha.nodes hb.nodes]
    simp only [numberOf_natText]
  have hread : ∀ (r : Report) (f : MetricFamily), f ∈ selFamilies U r.results r.pollErrors r.now →
      ∀ labels, valueOf (r.text U) f.name labels = numberAt f.samples labels :=
    fun r f => valueOf_exposition wellFormed_selFamilies nodup_selFamilies
  have hevent := fun r : Report => hread r _ (.head _)
  have herror := fun r : Report => hread r _ (.tail _ (.tail _ (.tail _ (.head _))))
  rw [selCounters, List.forall_mem_cons, List.forall_mem_singleton]
  simp only [hevent, herror]
  exact ⟨fun h => ⟨hevents.mp h.1, herrors.mp h.2⟩,
    fun h => ⟨hevents.mpr h.events, herrors.mpr h.errors⟩⟩

end Sel

end FaultOracle.Bmc

namespace FaultOracle.Redfish

open PythonFloats PrometheusText
open FaultOracle.Bmc (sanitizeLabel sanitized_singleton clean_label clean_sanitizeLabel
  singleton_perm_iff)

def Number.text : Number → Text
  | .int n => intText n
  | .float x => x.repr

/-- The metrics which `emit_metrics` of the Redfish collector writes. -/
def families (c : Collected) (now : PyFloat) : List MetricFamily :=
  [{ name := "redfish_system_health".toList
     help := "Redfish system component health: 1=OK, 0=Warning, -1=Critical.".toList
     kind := "gauge".toList
     samples := c.health.map fun item =>
       ([("component".toList, sanitizeLabel item.component)], intText item.value) },
    { name := "redfish_sel_entry_total".toList
      help := "Total new Redfish SEL entries by severity and category.".toList
      kind := "counter".toList
      samples := c.selEntries.map fun entry =>
        ([("severity".toList, sanitizeLabel entry.severity),
          ("category".toList, sanitizeLabel entry.category)], "1".toList) },
    { name := "redfish_temperature_celsius".toList
      help := "Temperature reading in Celsius from Redfish Thermal.".toList
      kind := "gauge".toList
      samples := c.temperatures.map fun t =>
        ([("sensor".toList, sanitizeLabel t.name)], t.value.text) },
    { name := "redfish_fan_rpm".toList
      help := "Fan speed in RPM from Redfish Thermal.".toList
      kind := "gauge".toList
      samples := c.fans.map fun f => ([("fan".toList, sanitizeLabel f.name)], f.value.text) },
    { name := "redfish_psu_input_watts".toList
      help := "PSU input power in Watts from Redfish Power.".toList
      kind := "gauge".toList
      samples := c.power.map fun p => ([("psu".toList, sanitizeLabel p.psu)], p.watts.text) },
    { name := "redfish_psu_up".toList
      help := "1 if PSU State is Enabled, 0 otherwise.".toList
      kind := "gauge".toList
      samples := c.power.map fun p => ([("psu".toList, sanitizeLabel p.psu)], natText p.up) },
    { name := "redfish_collector_up".toList
      help := "1 if Redfish collector ran successfully, 0 otherwise.".toList
      kind := "gauge".toList
      samples := [([], natText c.collectorUp)] },
    { name := "redfish_collector_last_run_timestamp".toList
      help := "Unix timestamp of last Redfish collector run.".toList
      kind := "gauge".toList
      samples := [([], (now.fixed 3).toList)] }]

/-- `emit_metrics` of the Redfish collector. -/
def emitMetrics (c : Collected) (now : PyFloat) : Text := exposition (families c now)

/-- The counter which it declares. -/
def counters : List Text := ["redfish_sel_entry_total".toList]

/-- What a run gives to `emit_metrics`, and the time at which it does. -/
structure Report where
  collected : Collected
  now : PyFloat

def Report.text (r : Report) : Text := emitMetrics r.collected r.now

/-- The reports of successive runs of `main`, the first of which finds this state file. -/
def reports (lower : Text → Text) : StateFile → List (Surroundings × PyFloat) → List Report
  | _, [] => []
  | file, (env, now) :: runs =>
      let (collected, file) := main lower file env
      ⟨collected, now⟩ :: reports lower file runs

/-- The texts which they write. -/
def texts (lower : Text → Text) (file : StateFile) (runs : List (Surroundings × PyFloat)) :
    List Text :=
  (reports lower file runs).map Report.text

/-- The labels of an entry. -/
def entryLabels (e : NewEntry) : Text × Text :=
  (sanitizeLabel e.severity, sanitizeLabel e.category)

/-- No component, sensor, fan or power supply of the report has the label of another, and no two
of its entries have the same labels. -/
structure Report.NoneTwice (r : Report) : Prop where
  health : (r.collected.health.map fun item => sanitizeLabel item.component).Nodup
  entries : (r.collected.selEntries.map entryLabels).Nodup
  temperatures : (r.collected.temperatures.map fun t => sanitizeLabel t.name).Nodup
  fans : (r.collected.fans.map fun f => sanitizeLabel f.name).Nodup
  power : (r.collected.power.map fun p => sanitizeLabel p.psu).Nodup

/-- The counter of a run is kept by the next: entries with the labels of each come again. -/
def Report.KeptBy (a b : Report) : Prop :=
  ∀ e ∈ a.collected.selEntries, ∃ e' ∈ b.collected.selEntries, entryLabels e' = entryLabels e

section Proofs

variable {c : Collected} {now : PyFloat}

/-- A number is written as a number. -/
theorem isNumber_text (n : Number) : isNumber n.text = true := by
  cases n with
  | int n => exact isNumber_intText n
  | float x => exact isNumber_repr x

/-- The families of the collector are well formed. -/
theorem wellFormed_families : ∀ f ∈ families c now, f.WellFormed := by
  have hnow : isNumber (now.fixed 3).toList = true := isNumber_fixed 3 (by decide) now
  refine List.forall_mem_cons.mpr ⟨?_, List.forall_mem_cons.mpr ⟨?_, List.forall_mem_cons.mpr
    ⟨?_, List.forall_mem_cons.mpr ⟨?_, List.forall_mem_cons.mpr ⟨?_, List.forall_mem_cons.mpr
      ⟨?_, List.forall_mem_cons.mpr ⟨?_, List.forall_mem_singleton.mpr ?_⟩⟩⟩⟩⟩⟩⟩
  · exact wellFormed_map (by decide +kernel) (fun item => sanitized_singleton (by decide) _)
      fun item => isNumber_intText _
  · refine wellFormed_map (by decide +kernel) (fun e => ?_) fun _ => (by decide)
    exact List.forall_mem_cons.mpr ⟨clean_label (by decide) (clean_sanitizeLabel _),
      List.forall_mem_singleton.mpr (clean_label (by decide) (clean_sanitizeLabel _))⟩
  · exact wellFormed_map (by decide +kernel) (fun t => sanitized_singleton (by decide) _)
      fun t => isNumber_text _
  · exact wellFormed_map (by decide +kernel) (fun f => sanitized_singleton (by decide) _)
      fun f => isNumber_text _
  · exact wellFormed_map (by decide +kernel) (fun p => sanitized_singleton (by decide) _)
      fun p => isNumber_text _
  · exact wellFormed_map (by decide +kernel) (fun p => sanitized_singleton (by decide) _)
      fun p => isNumber_natText _
  · exact wellFormed_unlabelled (by decide +kernel) (isNumber_natText _)
  · exact wellFormed_unlabelled (by decide +kernel) hnow

/-- The families of the collector have distinct names. -/
theorem nodup_families : ((families c now).map MetricFamily.name).Nodup := by
  have hnames : (families c now).map MetricFamily.name =
      ["redfish_system_health".toList, "redfish_sel_entry_total".toList,
        "redfish_temperature_celsius".toList, "redfish_fan_rpm".toList,
        "redfish_psu_input_watts".toList, "redfish_psu_up".toList,
        "redfish_collector_up".toList, "redfish_collector_last_run_timestamp".toList] := rfl
  rw [hnames]
  decide

/-- The labels of two entries, as they are written. -/
theorem entryLabelSet_perm_iff (a b : NewEntry) :
    [("severity".toList, sanitizeLabel a.severity),
        ("category".toList, sanitizeLabel a.category)].Perm
      [("severity".toList, sanitizeLabel b.severity),
        ("category".toList, sanitizeLabel b.category)] ↔ entryLabels a = entryLabels b := by
  rw [labels_perm_iff (by rfl) (by simp), entryLabels, entryLabels]
  simp

/-- **When a text of the Redfish collector is unambiguous.** -/
theorem unambiguous_redfish_iff (r : Report) : Unambiguous r.text ↔ r.NoneTwice := by
  rw [Report.text, emitMetrics, unambiguous_iff wellFormed_families nodup_families]
  constructor
  · intro h
    exact ⟨(pairwise_labels_iff fun _ _ => singleton_perm_iff).mp (h _ (.head _)),
      (pairwise_labels_iff entryLabelSet_perm_iff).mp (h _ (.tail _ (.head _))),
      (pairwise_labels_iff fun _ _ => singleton_perm_iff).mp (h _ (.tail _ (.tail _ (.head _)))),
      (pairwise_labels_iff fun _ _ => singleton_perm_iff).mp
        (h _ (.tail _ (.tail _ (.tail _ (.head _))))),
      (pairwise_labels_iff fun _ _ => singleton_perm_iff).mp
        (h _ (.tail _ (.tail _ (.tail _ (.tail _ (.head _))))))⟩
  · intro h
    refine List.forall_mem_cons.mpr ⟨?_, List.forall_mem_cons.mpr ⟨?_, List.forall_mem_cons.mpr
      ⟨?_, List.forall_mem_cons.mpr ⟨?_, List.forall_mem_cons.mpr ⟨?_, List.forall_mem_cons.mpr
        ⟨?_, List.forall_mem_cons.mpr ⟨?_, List.forall_mem_singleton.mpr ?_⟩⟩⟩⟩⟩⟩⟩
    · exact (pairwise_labels_iff fun _ _ => singleton_perm_iff).mpr h.health
    · exact (pairwise_labels_iff entryLabelSet_perm_iff).mpr h.entries
    · exact (pairwise_labels_iff fun _ _ => singleton_perm_iff).mpr h.temperatures
    · exact (pairwise_labels_iff fun _ _ => singleton_perm_iff).mpr h.fans
    · exact (pairwise_labels_iff fun _ _ => singleton_perm_iff).mpr h.power
    · exact (pairwise_labels_iff fun _ _ => singleton_perm_iff).mpr h.power
    · exact List.pairwise_singleton _ _
    · exact List.pairwise_singleton _ _

/-- The collector's counters keep their values exactly when each report keeps the samples. -/
theorem keeps_redfish_iff (a b : Report) (ha : a.NoneTwice) (hb : b.NoneTwice) :
    (∀ name ∈ counters, ∀ labels, valueOf a.text name labels ≤ valueOf b.text name labels) ↔
      a.KeptBy b := by
  have hone : numberOf "1".toList = 1 := by decide
  have hread : ∀ (r : Report) (f : MetricFamily), f ∈ families r.collected r.now →
      ∀ labels, valueOf r.text f.name labels = numberAt f.samples labels :=
    fun r f => valueOf_exposition wellFormed_families nodup_families
  have hentry := fun r : Report => hread r _ (.tail _ (.head _))
  rw [counters, List.forall_mem_singleton]
  simp only [hentry]
  rw [numberAt_le_iff entryLabelSet_perm_iff ha.entries hb.entries, Report.KeptBy]
  simp only [hone, Nat.one_pos, true_imp_iff, le_refl, and_true]

end Proofs

end FaultOracle.Redfish

namespace FaultOracle

open PythonFloats PrometheusText
open FaultOracle.Trace (CharTables)

/-- **The collectors accumulate only by chance.**  Whatever runs report, their texts are
unambiguous and let no counter fall just when no report has a label set twice and each report
has the events of the one before again, with no fewer errors.  The reports of runs of `main` are
among these.  A counter which a text leaves out stands at zero there. -/
theorem collectors_accumulate_iff (U : CharTables) (sel : List Bmc.Report)
    (redfish : List Redfish.Report) :
    (Accumulates Bmc.selCounters (sel.map (Bmc.Report.text U)) ↔
      (∀ r ∈ sel, r.NoneTwice U) ∧ sel.IsChain (Bmc.Report.KeptBy U)) ∧
    (Accumulates Redfish.counters (redfish.map Redfish.Report.text) ↔
      (∀ r ∈ redfish, r.NoneTwice) ∧ redfish.IsChain Redfish.Report.KeptBy) :=
  ⟨accumulates_iff (Bmc.unambiguous_sel_iff U) Bmc.keeps_sel_iff sel,
    accumulates_iff Redfish.unambiguous_redfish_iff Redfish.keeps_redfish_iff redfish⟩

section Counterexample

open Bmc (plainInterpreter rackTarget)

/-- A poll which lists two memory errors. -/
def twoMemoryErrors : List (Bmc.Surroundings × PyFloat) :=
  [(⟨true, [(rackTarget, .output
    "1,,Memory A1,ECC,Assert,\n2,,Memory B1,ECC,Assert,\n".toList)]⟩, .fin 0)]

/-- A poll which fails, and one which does not. -/
def errorThenNone : List (Bmc.Surroundings × PyFloat) :=
  [(⟨true, [(rackTarget, .failure "timeout".toList)]⟩, .fin 0),
    (⟨true, [(rackTarget, .output [])]⟩, .fin 0)]

/-- The BMC returns two failed power supplies. -/
def twoFailedPsus : List (Redfish.Surroundings × PyFloat) :=
  [(Redfish.bmcAnswers (some [Redfish.psuEntry, { Redfish.psuEntry with id := .str "42".toList }]),
    .fin 0)]

/-- Two errors in one poll are two samples of one series, as are the two power supplies, and the
count of the poll errors falls from one to zero. -/
theorem two_errors_rejected :
    ¬ Accumulates Bmc.selCounters (Bmc.texts plainInterpreter none twoMemoryErrors) ∧
    ¬ Accumulates Bmc.selCounters (Bmc.texts plainInterpreter none errorThenNone) ∧
    ¬ Accumulates Redfish.counters (Redfish.texts (List.map Char.toLower) none twoFailedPsus) := by
  refine ⟨fun h => ?_, fun h => ?_, fun h => ?_⟩
  · have hevents : (Bmc.reports plainInterpreter none twoMemoryErrors).map (fun r =>
        Bmc.eventsOf plainInterpreter.tables r.results) =
          [List.replicate 2 ("rack-7".toList, "memory".toList, "critical".toList)] := by
      decide +kernel
    have hnone : ∀ events ∈ (Bmc.reports plainInterpreter none twoMemoryErrors).map (fun r =>
        Bmc.eventsOf plainInterpreter.tables r.results), events.Nodup :=
      List.forall_mem_map.mpr fun r hr =>
        ((Bmc.unambiguous_sel_iff _ r).mp (h.1 _ (List.mem_map_of_mem hr))).events
    rw [hevents, List.forall_mem_singleton, List.nodup_replicate] at hnone
    omega
  · have hvalues : (Bmc.texts plainInterpreter none errorThenNone).map (fun text =>
        valueOf text "ipmi_bmc_poll_error_total".toList (Bmc.nodeLabel "rack-7".toList)) =
          [1, 0] := by decide +kernel
    have hchain := h.2.values (.tail _ (.head _)) (Bmc.nodeLabel "rack-7".toList)
    rw [hvalues] at hchain
    revert hchain
    decide
  · have hentries : (Redfish.reports (List.map Char.toLower) none twoFailedPsus).map (fun r =>
        r.collected.selEntries.map Redfish.entryLabels) =
          [List.replicate 2 ("critical".toList, "power".toList)] := by
      decide +kernel
    have hnone : ∀ entries ∈ (Redfish.reports (List.map Char.toLower) none twoFailedPsus).map
        (fun r => r.collected.selEntries.map Redfish.entryLabels), entries.Nodup :=
      List.forall_mem_map.mpr fun r hr =>
        ((Redfish.unambiguous_redfish_iff r).mp (h.1 _ (List.mem_map_of_mem hr))).entries
    rw [hentries, List.forall_mem_singleton, List.nodup_replicate] at hnone
    omega

end Counterexample

end FaultOracle
