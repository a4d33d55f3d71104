import FaultOracle.PrometheusQuery
import FaultOracle.ScrapeUniqueness

/-!
# The series of the forecaster

`fetch_series` of `ml/ce_forecaster.py` files the samples of each series which Prometheus answers
with under a key made of its labels.  The series are those of the correctable errors which
`EDACCollector` exports, with the labels `controller`, `csrow` and `channel`; the key is made of
`instance`, `mc` and `csrow`.

`fetchSeries_keeps_iff` says when every series has an entry of its own.
-/

namespace FaultOracle.Forecaster

open BacktrackingRegex InsertionDict PythonFloats
open FaultOracle.Exporter
open FaultOracle.Remediation (pythonFloat)
open FaultOracle.Trace (CharTables asciiTables)

/-! ## `fetch_series` -/

/-- A sample of a range query: a time in seconds, and a value as it is written. -/
structure RangeSample where
  time : PyFloat
  text : Text
deriving DecidableEq

/-- A series of a range query. -/
structure RangeSeries where
  metric : List (Text × Text)
  values : List RangeSample

/-- The answer of `query_range`. -/
structure RangeAnswer where
  status : Text
  error : Option Text
  result : List RangeSeries

/-- A row of a data frame; `ds` is the time, in seconds. -/
structure Row where
  ds : PyFloat
  y : PyFloat
deriving DecidableEq

abbrev DataFrame := List Row

/-- The exceptions of `fetch_series`. -/
inductive FetchError
  | runtimeError (error : Option Text)
  | valueError
deriving DecidableEq

/-- The key of a series. -/
def labelKey (metric : List (Text × Text)) : Text :=
  let mc := (metric.lookup "mc".toList).getD "0".toList
  let csrow := (metric.lookup "csrow".toList).getD "0".toList
  let inst := (metric.lookup "instance".toList).getD "unknown".toList
  "instance=\"".toList ++ inst ++ "\",mc=\"".toList ++ mc ++ "\",csrow=\"".toList ++ csrow ++
    "\"".toList

/-- The samples which are kept. -/
def RangeSample.valid (v : RangeSample) : Bool :=
  !(["NaN".toList, "Inf".toList, "+Inf".toList].contains v.text)

section

variable (U : CharTables)

/-- `(Timestamp(float(v[0])), float(v[1]))`; `none` where `float` raises. -/
def rowOf (v : RangeSample) : Option Row := (pythonFloat U v.text).map fun y => ⟨v.time, y⟩

def rowsOf (values : List RangeSample) : Option DataFrame :=
  (values.filter RangeSample.valid).mapM (rowOf U)

/-- The body of the loop. -/
def fetchItem (series : List (Text × DataFrame)) (s : RangeSeries) :
    Option (List (Text × DataFrame)) :=
  (rowsOf U s.values).map fun rows =>
    if rows = [] then series else setItem (labelKey s.metric) rows series

/-- `fetch_series`, of the answer which was read. -/
def fetchSeries (data : RangeAnswer) : Except FetchError (List (Text × DataFrame)) :=
  if data.status ≠ "success".toList then .error (.runtimeError data.error)
  else
    match data.result.foldlM (fetchItem U) [] with
    | none => .error .valueError
    | some series => .ok series

end

/-! ## The exported series -/

/-- A series of correctable errors: the target which exports it, its labels, and its samples. -/
structure CeSeries where
  job : Text
  inst : Text
  controller : Text
  csrow : Text
  channel : Text
  values : List RangeSample
deriving DecidableEq

/-- The labels of the series. -/
def CeSeries.labels (s : CeSeries) : List (Text × Text) :=
  [("channel".toList, s.channel), ("controller".toList, s.controller), ("csrow".toList, s.csrow),
    ("instance".toList, s.inst), ("job".toList, s.job)]

/-- Some scrape of the collector exports the series. -/
def CeSeries.Exported (s : CeSeries) : Prop :=
  ∃ fs root duration, ∃ sample ∈ edacCollect fs root duration,
    sample.series = ("edac_correctable_errors_total", [s.controller, s.csrow, s.channel])

/-- What Prometheus answers for the series; a rate has the labels of its series. -/
def answerOf (exported : List CeSeries) : RangeAnswer where
  status := "success".toList
  error := none
  result := exported.map fun s => ⟨s.labels, s.values⟩

/-- The series has a valid sample. -/
def CeSeries.hasValid (s : CeSeries) : Bool := s.values.any RangeSample.valid

/-- Each series with a valid sample has an entry of its own, with its own samples. -/
def KeepsApart (U : CharTables) (exported : List CeSeries) (entries : List (Text × DataFrame)) :
    Prop :=
  ∃ entry : CeSeries → Text, ∀ s ∈ exported, s.hasValid = true →
    (∃ rows, rowsOf U s.values = some rows ∧ entries.lookup (entry s) = some rows) ∧
    ∀ t ∈ exported, t.hasValid = true → entry s = entry t → s = t

section Proofs

variable {U : CharTables} {s t : CeSeries} {exported : List CeSeries}

/-! ### Keys -/

/-- The labels of a row's samples are digits. -/
theorem isDigit_of_edacCsrow {fs : FileSystem} {path : Path} {mc csrow channel : Text}
    {e : DirEntry} {sample : Sample} (h : sample ∈ (edacCsrow fs path mc e).samples)
    (hlabels : sample.labels = [mc, csrow, channel]) : ∀ c ∈ csrow, c.isDigit = true := by
  unfold edacCsrow at h
  split at h
  · cases h
  · split at h
    · cases h
    · rename_i cm hcm
      have hof : ∀ {name labels}, sample.series = (name, labels) →
          labels = [mc, csrow, channel] := fun hseries =>
        (congrArg Prod.snd hseries).symm.trans hlabels
      rcases List.mem_append.mp h with h | h
      · cases hof (series_of_counterFile h)
      · split at h
        · cases h
        · rw [Scrape.samples_each] at h
          obtain ⟨_, _, h⟩ := List.mem_flatMap.mp h
          obtain ⟨_, hseries, _⟩ := series_of_edacChannel h
          cases hof hseries
          exact (reCsrowDir_eq_some_iff.mp ⟨_, hcm, rfl⟩).1.2

/-- The labels of a controller's samples are digits. -/
theorem isDigit_of_edacController {fs : FileSystem} {path : Path} {mc csrow channel : Text}
    {e : DirEntry} {sample : Sample} (h : sample ∈ (edacController fs path e).samples)
    (hlabels : sample.labels = [mc, csrow, channel]) : ∀ c ∈ csrow, c.isDigit = true := by
  have hmc : mc = e.name := by
    have hhead := (series_of_edacController h).2
    rw [hlabels] at hhead
    exact Option.some.inj hhead
  subst hmc
  unfold edacController at h
  split at h
  · cases h
  · split at h
    · cases h
    · have hof : ∀ {name labels}, sample.series = (name, labels) →
          labels = [e.name, csrow, channel] := fun hseries =>
        (congrArg Prod.snd hseries).symm.trans hlabels
      rw [Scrape.samples_append, Scrape.samples_append, List.mem_append, List.mem_append] at h
      rcases h with (h | h) | h
      · cases hof (series_of_counterFile h)
      · cases hof (series_of_counterFile h)
      · split at h
        · cases h
        · rw [Scrape.samples_each] at h
          obtain ⟨_, _, h⟩ := List.mem_flatMap.mp h
          exact isDigit_of_edacCsrow h hlabels

/-- The csrow of an exported series is a number. -/
theorem CeSeries.Exported.isDigit (h : s.Exported) : ∀ c ∈ s.csrow, c.isDigit = true := by
  obtain ⟨fs, root, duration, sample, hsample, hseries⟩ := h
  obtain ⟨hname, hlabels⟩ := Prod.mk.inj hseries
  have hself : ∀ {value errCount}, sample ∉ collectorUp "edac" value ::
      emitSelf "edac" duration errCount := by
    intro value errCount hmem
    cases (List.cons.inj (hlabels.symm.trans (series_of_self hmem).2)).2
  simp only [edacCollect] at hsample
  split at hsample
  · exact absurd hsample hself
  · rw [Scrape.samples_each, List.mem_append] at hsample
    obtain ⟨_, _, hcontroller⟩ := List.mem_flatMap.mp (hsample.resolve_right hself)
    exact isDigit_of_edacController hcontroller hlabels

/-- The key of a series by its labels. -/
theorem labelKey_labels (s : CeSeries) :
    labelKey s.labels = "instance=\"".toList ++
      ((s.inst ++ "\",mc=\"0\",csrow=".toList) ++ ['"'] ++ s.csrow ++ ['"']) := by
  have hmc : s.labels.lookup "mc".toList = none := by simp [CeSeries.labels, List.lookup_cons]
  have hcsrow : s.labels.lookup "csrow".toList = some s.csrow := by
    simp [CeSeries.labels, List.lookup_cons]
  have hinst : s.labels.lookup "instance".toList = some s.inst := by
    simp [CeSeries.labels, List.lookup_cons]
  have hmiddle : "\",mc=\"".toList ++ "0".toList ++ "\",csrow=\"".toList =
      "\",mc=\"0\",csrow=".toList ++ ['"'] := by decide
  have hend : "\"".toList = ['"'] := by decide
  have hjoined := congrArg (· ++ (s.csrow ++ ['"'])) hmiddle
  unfold labelKey
  rw [hmc, hcsrow, hinst, Option.getD_none, Option.getD_some, Option.getD_some, hend]
  simp only [List.append_assoc] at hjoined ⊢
  rw [hjoined]

/-- What stands behind the last quote. -/
theorem append_eq_append_quote {a b d e : Text} (hd : '"' ∉ d) (he : '"' ∉ e)
    (h : a ++ ['"'] ++ d = b ++ ['"'] ++ e) : a = b ∧ d = e := by
  have hnil : ∀ {x y m : Text}, '"' ∉ m → x ++ ['"'] = y ++ ['"'] ++ m → m = [] := by
    intro x y m hm heq
    rcases List.eq_nil_or_concat m with hnil | ⟨front, last, rfl⟩
    · exact hnil
    · rw [List.concat_eq_append] at hm heq
      rw [← List.append_assoc] at heq
      have hlast : '"' = last := List.singleton_inj.mp (List.append_inj' heq rfl).2
      exact absurd (hlast ▸ List.mem_concat_self) hm
  rcases List.append_eq_append_iff.mp h with ⟨m, hm, hd'⟩ | ⟨m, hm, he'⟩
  · obtain rfl := hnil (fun hmem => hd (hd' ▸ List.mem_append_left _ hmem)) hm
    exact ⟨(List.append_cancel_right (hm.trans (List.append_nil _))).symm, hd'⟩
  · obtain rfl := hnil (fun hmem => he (he' ▸ List.mem_append_left _ hmem)) hm
    exact ⟨List.append_cancel_right (hm.trans (List.append_nil _)), he'.symm⟩

/-- **The key of a series** tells its instance and its csrow, and nothing else. -/
theorem labelKey_eq_iff (hs : s.Exported) (ht : t.Exported) :
    labelKey s.labels = labelKey t.labels ↔ (s.inst, s.csrow) = (t.inst, t.csrow) := by
  have hquote : ∀ {s : CeSeries}, s.Exported → '"' ∉ s.csrow := fun hs hmem => by
    cases hs.isDigit _ hmem
  rw [labelKey_labels, labelKey_labels, List.append_cancel_left_eq, List.append_cancel_right_eq,
    Prod.mk.injEq]
  constructor
  · intro h
    obtain ⟨hinst, hcsrow⟩ := append_eq_append_quote (hquote hs) (hquote ht) h
    exact ⟨List.append_cancel_right hinst, hcsrow⟩
  · intro ⟨hinst, hcsrow⟩
    rw [hinst, hcsrow]

/-! ### Entries -/

/-- The samples can be read as numbers. -/
def CeSeries.Numerals (U : CharTables) (s : CeSeries) : Prop :=
  ∀ v ∈ s.values, (pythonFloat U v.text).isSome = true

/-- What the samples of a series are read as. -/
def frameOf (U : CharTables) (s : CeSeries) : DataFrame :=
  (s.values.filter RangeSample.valid).filterMap (rowOf U)

/-- The items which are assigned, in their order. -/
def assigned (U : CharTables) (exported : List CeSeries) : List (Text × DataFrame) :=
  (exported.filter CeSeries.hasValid).map fun s => (labelKey s.labels, frameOf U s)

/-- Numerals are all read as rows. -/
theorem mapM_rowOf {values : List RangeSample}
    (h : ∀ v ∈ values, (pythonFloat U v.text).isSome = true) :
    values.mapM (rowOf U) = some (values.filterMap (rowOf U)) := by
  induction values with
  | nil => rfl
  | cons v values ih =>
      obtain ⟨y, hy⟩ := Option.isSome_iff_exists.mp (h v (.head _))
      have hrow : rowOf U v = some ⟨v.time, y⟩ := by rw [rowOf, hy]; rfl
      rw [List.mapM_cons, hrow, ih fun v hv => h v (.tail _ hv),
        List.filterMap_cons_some hrow]
      rfl

/-- A series of numerals has all its rows. -/
theorem rowsOf_numerals (h : s.Numerals U) : rowsOf U s.values = some (frameOf U s) :=
  mapM_rowOf fun v hv => h v (List.mem_filter.mp hv).1

/-- A frame is empty when no sample is valid. -/
theorem frameOf_eq_nil_iff (h : s.Numerals U) : frameOf U s = [] ↔ s.hasValid = false := by
  rw [frameOf, List.filterMap_eq_nil_iff, CeSeries.hasValid, List.any_eq_false]
  constructor
  · intro hnone v hv hvalid
    obtain ⟨y, hy⟩ := Option.isSome_iff_exists.mp (h v hv)
    have hrow := hnone v (List.mem_filter.mpr ⟨hv, hvalid⟩)
    rw [rowOf, hy] at hrow
    cases hrow
  · intro hnone v hv
    exact absurd (List.mem_filter.mp hv).2 (hnone v (List.mem_filter.mp hv).1)

/-- Series of numerals are fetched one by one. -/
theorem foldlM_fetchItem (h : ∀ s ∈ exported, s.Numerals U) (series : List (Text × DataFrame)) :
    (exported.map fun s => (⟨s.labels, s.values⟩ : RangeSeries)).foldlM (fetchItem U) series =
      some ((assigned U exported).foldl (fun d item => setItem item.1 item.2 d) series) := by
  induction exported generalizing series with
  | nil => rfl
  | cons s exported ih =>
      have hs := h s (.head _)
      have hrest := fun s hs => h s (.tail _ hs)
      rw [List.map_cons, List.foldlM_cons, fetchItem, rowsOf_numerals hs]
      cases hvalid : s.hasValid with
      | false =>
          have hempty := (frameOf_eq_nil_iff hs).mpr hvalid
          rw [assigned, List.filter_cons_of_neg (by simp [hvalid]), ← assigned, ← ih hrest, hempty]
          rfl
      | true =>
          have hrows : frameOf U s ≠ [] := fun hnil => by
            cases hvalid.symm.trans ((frameOf_eq_nil_iff hs).mp hnil)
          rw [assigned, List.filter_cons_of_pos hvalid, List.map_cons, ← assigned,
            List.foldl_cons, ← ih hrest]
          exact congrArg (Option.bind · _) (congrArg some (if_neg hrows))

/-- **What `fetch_series` returns**: the frames of the series with valid samples, assigned in
turn. -/
theorem fetchSeries_answerOf (h : ∀ s ∈ exported, s.Numerals U) :
    fetchSeries U (answerOf exported) =
      .ok ((assigned U exported).foldl (fun d item => setItem item.1 item.2 d) []) := by
  have hstatus : (answerOf exported).status = "success".toList := rfl
  rw [fetchSeries, if_neg (not_not.mpr hstatus)]
  show (match (exported.map fun s => (⟨s.labels, s.values⟩ : RangeSeries)).foldlM
    (fetchItem U) [] with | none => _ | some series => _) = _
  rw [foldlM_fetchItem h]

/-- No key is assigned twice when the instances and csrows are different. -/
theorem nodup_assigned_iff (h : ∀ s ∈ exported, s.Exported) :
    ((assigned U exported).map Prod.fst).Nodup ↔
      ((exported.filter CeSeries.hasValid).map fun s => (s.inst, s.csrow)).Nodup := by
  rw [assigned, List.map_map, List.Nodup, List.Nodup, List.pairwise_map, List.pairwise_map]
  refine List.Pairwise.iff_of_mem fun {s t} hs ht => not_congr ?_
  exact labelKey_eq_iff (h s (List.mem_filter.mp hs).1) (h t (List.mem_filter.mp ht).1)

/-- A key which is found is a key. -/
theorem mem_keys_of_lookup {key : Text} {rows : DataFrame} {d : List (Text × DataFrame)}
    (h : d.lookup key = some rows) : key ∈ d.map Prod.fst := by
  obtain ⟨front, back, hd, _⟩ := List.lookup_eq_some_iff.mp h
  rw [hd]
  simp

end Proofs

/-- **A key is not a series.**  Of series which some scrapes export, each has an entry of its
own with its own samples just when no two of those with a valid sample have the same instance
and the same csrow: the controller and the channel are not in the key. -/
theorem fetchSeries_keeps_iff (U : CharTables) (exported : List CeSeries)
    (hexported : ∀ s ∈ exported, s.Exported) (hnumerals : ∀ s ∈ exported, s.Numerals U)
    (hdistinct : (exported.map CeSeries.labels).Nodup) :
    (∃ entries, fetchSeries U (answerOf exported) = .ok entries ∧
      KeepsApart U exported entries) ↔
    ((exported.filter CeSeries.hasValid).map fun s => (s.inst, s.csrow)).Nodup := by
  rw [← nodup_assigned_iff (U := U) hexported, fetchSeries_answerOf hnumerals]
  constructor
  · intro ⟨entries, hentries, entry, hentry⟩
    obtain rfl := Except.ok.inj hentries
    have hvalid : (exported.filter CeSeries.hasValid).Nodup := (hdistinct.of_map _).filter _
    have hnodup : ((exported.filter CeSeries.hasValid).map entry).Nodup := by
      refine List.Nodup.map_on (fun s hs t ht heq => ?_) hvalid
      obtain ⟨hs, hsvalid⟩ := List.mem_filter.mp hs
      obtain ⟨ht, htvalid⟩ := List.mem_filter.mp ht
      exact (hentry s hs hsvalid).2 t ht htvalid heq
    have hkeys : (exported.filter CeSeries.hasValid).map entry ⊆
        ((assigned U exported).foldl (fun d item => setItem item.1 item.2 d) []).map Prod.fst := by
      intro key hkey
      obtain ⟨s, hs, rfl⟩ := List.mem_map.mp hkey
      obtain ⟨hs, hsvalid⟩ := List.mem_filter.mp hs
      obtain ⟨⟨rows, _, hlookup⟩, _⟩ := hentry s hs hsvalid
      exact mem_keys_of_lookup hlookup
    have hlength := (List.subperm_of_subset hnodup hkeys).length_le
    rw [List.length_map, List.length_map] at hlength
    exact nodup_keys_of_length_le (by rwa [assigned, List.length_map])
  · intro hnodup
    refine ⟨_, rfl, fun s => labelKey s.labels, fun s hs hsvalid => ?_⟩
    have hmem : ∀ {s : CeSeries}, s ∈ exported → s.hasValid = true →
        s ∈ exported.filter CeSeries.hasValid := fun hs hvalid => List.mem_filter.mpr ⟨hs, hvalid⟩
    rw [foldl_setItem_of_nodup (by simpa using hnodup), List.nil_append]
    refine ⟨⟨frameOf U s, rowsOf_numerals (hnumerals s hs), ?_⟩, fun t ht htvalid heq => ?_⟩
    · exact (mem_iff_lookup hnodup).mp (List.mem_map_of_mem (hmem hs hsvalid))
    · rw [assigned, List.map_map] at hnodup
      exact List.inj_on_of_nodup_map hnodup (hmem hs hsvalid) (hmem ht htvalid) heq

section Examples

/-- A host with two controllers of two csrows of two channels. -/
def twoControllers : FileSystem where
  readDir := fun path =>
    if path.getLast? = some "mc".toList then some [⟨"mc0".toList, true⟩, ⟨"mc1".toList, true⟩]
    else if path.getLast? = some "mc0".toList ∨ path.getLast? = some "mc1".toList then
      some [⟨"csrow0".toList, true⟩, ⟨"csrow1".toList, true⟩]
    else some [⟨"ch0_ce_count".toList, false⟩, ⟨"ch1_ce_count".toList, false⟩]
  readFile := fun _ => some "3\n".toList
  stat := fun _ => .found
  nodup_names := by
    intro path entries h
    split at h
    · obtain rfl := Option.some.inj h
      decide
    · split at h
      · obtain rfl := Option.some.inj h
        decide
      · obtain rfl := Option.some.inj h
        decide

/-- A series of this host with one sample. -/
def hostSeries (controller csrow channel text : String) : CeSeries where
  job := "hw-fault-exporter".toList
  inst := "node-7:9101".toList
  controller := controller.toList
  csrow := csrow.toList
  channel := channel.toList
  values := [⟨.fin 1700000000, text.toList⟩]

/-- Two csrows, and a third whose rate is no number. -/
def twoCsrows : List CeSeries :=
  [hostSeries "mc0" "0" "0" "0.25", hostSeries "mc0" "1" "0" "0", hostSeries "mc1" "0" "0" "NaN"]

/-- Series of the exporter's samples are exported ones. -/
theorem exported_of_mem {exported : List CeSeries}
    (h : ∀ s ∈ exported, ∃ sample ∈ edacCollect twoControllers [] (.fin 0), sample.series =
      ("edac_correctable_errors_total", [s.controller, s.csrow, s.channel])) :
    ∀ s ∈ exported, s.Exported := fun s hs => ⟨_, _, _, h s hs⟩

/-- Two rows of one controller are kept apart. -/
theorem twoCsrows_kept :
    ∃ entries, fetchSeries asciiTables (answerOf twoCsrows) = .ok entries ∧
      KeepsApart asciiTables twoCsrows entries :=
  (fetchSeries_keeps_iff asciiTables twoCsrows (exported_of_mem (by decide +kernel))
    (by unfold CeSeries.Numerals; decide +kernel) (by decide +kernel)).mpr (by decide +kernel)

/-- Two controllers, and two channels of one of them. -/
def oneCsrow : List CeSeries :=
  [hostSeries "mc0" "0" "0" "0.25", hostSeries "mc0" "0" "1" "0", hostSeries "mc1" "0" "0" "0"]

/-- The series of the errors is overwritten by the two without. -/
theorem controllers_and_channels_collapse :
    (∀ s ∈ oneCsrow, s.Exported ∧ s.Numerals asciiTables) ∧
    (oneCsrow.map CeSeries.labels).Nodup ∧
    ¬ ∃ entries, fetchSeries asciiTables (answerOf oneCsrow) = .ok entries ∧
      KeepsApart asciiTables oneCsrow entries := by
  have hexported : ∀ s ∈ oneCsrow, s.Exported := exported_of_mem (by decide +kernel)
  have hnumerals : ∀ s ∈ oneCsrow, s.Numerals asciiTables := by
    unfold CeSeries.Numerals
    decide +kernel
  refine ⟨fun s hs => ⟨hexported s hs, hnumerals s hs⟩, by decide +kernel, ?_⟩
  intro ⟨entries, hentries, entry, hentry⟩
  have hone : (fetchSeries asciiTables (answerOf oneCsrow)).toOption =
      some [("instance=\"node-7:9101\",mc=\"0\",csrow=\"0\"".toList,
        [⟨.fin 1700000000, .fin 0⟩])] := by
    decide +kernel
  rw [hentries] at hone
  obtain rfl : entries = _ := Option.some.inj hone
  have hkey : ∀ s ∈ oneCsrow, s.hasValid = true →
      entry s = "instance=\"node-7:9101\",mc=\"0\",csrow=\"0\"".toList := by
    intro s hs hvalid
    obtain ⟨_, _, hlookup⟩ := (hentry s hs hvalid).1
    exact List.mem_singleton.mp (mem_keys_of_lookup hlookup)
  have hvalid : ∀ s ∈ oneCsrow, s.hasValid = true := by decide +kernel
  have hsame : ∀ s ∈ oneCsrow, ∀ t ∈ oneCsrow, s = t := fun s hs t ht =>
    (hentry s hs (hvalid s hs)).2 t ht (hvalid t ht)
      ((hkey s hs (hvalid s hs)).trans (hkey t ht (hvalid t ht)).symm)
  revert hsame
  decide +kernel

end Examples

end FaultOracle.Forecaster
