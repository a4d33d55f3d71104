import FaultOracle.CheckedLoops
import FaultOracle.PrometheusQuery
import FaultOracle.WearPredictor

/-!
# The series of the wear predictor

`extract_device_series` of `storage/wear_predictor.py` reads the samples of each device into two
lists, and `predict_device` takes the lists for parallel ones.  A sample whose value is no number
is skipped, but its timestamp has already been appended when the value is converted, so that it
stays behind.

`extracts_iff` says when the lists are those of the samples which parse.
-/

namespace FaultOracle.Wear

open InsertionDict CheckedLoops
open JsonValues (Json)
open PythonFloats (PyFloat)
open FaultOracle.Trace (CharTables asciiTables)
open FaultOracle.Remediation (PyRaised floatOf)

/-- One of the dictionaries of a range result. -/
structure RangeSeries where
  metric : Option (List (String × String))
  values : Option (List (Json × Json))

/-- `r.get("metric", {}).get(label_key, "unknown")`. -/
def RangeSeries.device (r : RangeSeries) (labelKey : String) : String :=
  ((r.metric.getD []).lookup labelKey).getD "unknown"

/-- `r.get("values", [])`. -/
def RangeSeries.rawValues (r : RangeSeries) : List (Json × Json) := r.values.getD []

/-- `except (TypeError, ValueError)`. -/
def caught : PyRaised → Bool
  | .typeError => true
  | .valueError => true
  | _ => false

section Extract

variable (U : CharTables)

/-- The body of the inner loop, on the two lists. -/
def appendSample (lists : List PyFloat × List PyFloat) (sample : Json × Json) :
    Except PyRaised (List PyFloat × List PyFloat) :=
  match floatOf U sample.1 with
  | .error e => if caught e then .ok lists else .error e
  | .ok timestamp =>
      -- the timestamp is in its list before the value is converted
      let lists := (lists.1 ++ [timestamp], lists.2)
      match floatOf U sample.2 with
      | .error e => if caught e then .ok lists else .error e
      | .ok value => .ok (lists.1, lists.2 ++ [value])

/-- The body of the outer loop. -/
def extractSeries (labelKey : String) (series : List (String × List PyFloat × List PyFloat))
    (r : RangeSeries) : Except PyRaised (List (String × List PyFloat × List PyFloat)) := do
  let lists ← r.rawValues.foldlM (appendSample U) ([], [])
  return if lists.1 = [] then series else setItem (r.device labelKey) lists series

/-- `extract_device_series`. -/
def extractDeviceSeries (resultList : List RangeSeries) (labelKey : String) :
    Except PyRaised (List (String × List PyFloat × List PyFloat)) :=
  resultList.foldlM (extractSeries U labelKey) []

/-- A sample whose timestamp and value both parse. -/
def parseSample (sample : Json × Json) : Option (PyFloat × PyFloat) :=
  match floatOf U sample.1, floatOf U sample.2 with
  | .ok timestamp, .ok value => some (timestamp, value)
  | _, _ => none

/-- Each device has the samples which parse, in order; one which has none may be left out. -/
def Extracts (resultList : List RangeSeries) (labelKey : String) : Prop :=
  ∃ series, extractDeviceSeries U resultList labelKey = .ok series ∧
    ∀ r ∈ resultList, (series.lookup (r.device labelKey)).getD ([], []) =
      (r.rawValues.filterMap (parseSample U)).unzip

/-- The timestamp is no integer beyond the floats, and where it parses the value does as well. -/
structure Sound (sample : Json × Json) : Prop where
  inRange : floatOf U sample.1 ≠ .error .overflowError
  paired : ∀ timestamp, floatOf U sample.1 = .ok timestamp → ∃ value, floatOf U sample.2 = .ok value

/-! ## One sample -/

/-- The timestamp which is appended. -/
def stamp (sample : Json × Json) : Option PyFloat := (floatOf U sample.1).toOption

/-- The sample ends the function. -/
def Raises (sample : Json × Json) : Prop :=
  floatOf U sample.1 = .error .overflowError ∨
    (stamp U sample).isSome ∧ floatOf U sample.2 = .error .overflowError

variable {U}

/-- The only error which is not expected. -/
theorem floatOf_error {j : Json} {e : PyRaised} (h : floatOf U j = .error e) :
    caught e = true ∨ e = .overflowError := by
  unfold floatOf at h
  split at h
  · split at h
    · cases h
    · cases h
      exact .inl rfl
  · split at h
    · cases h
    · cases h
      exact .inr rfl
  · cases h
  · cases h
  · cases h
    exact .inl rfl

/-- A sample which raises ends the series with an error. -/
theorem appendSample_of_raises (lists : List PyFloat × List PyFloat) {sample : Json × Json}
    (h : Raises U sample) : ∃ e, appendSample U lists sample = .error e := by
  refine ⟨.overflowError, ?_⟩
  unfold appendSample
  rcases h with htimestamp | ⟨hstamp, hvalue⟩
  · rw [htimestamp]
    rfl
  · cases htimestamp : floatOf U sample.1 with
    | error e =>
        rw [stamp, htimestamp] at hstamp
        cases hstamp
    | ok timestamp =>
        simp only [hvalue]
        rfl

/-- Another sample adds its stamp and its value, as far as they are read. -/
theorem appendSample_of_not_raises (lists : List PyFloat × List PyFloat) {sample : Json × Json}
    (h : ¬ Raises U sample) : appendSample U lists sample =
      .ok (lists.1 ++ (stamp U sample).toList,
        lists.2 ++ ((parseSample U sample).map Prod.snd).toList) := by
  unfold Raises at h
  rw [not_or] at h
  obtain ⟨htimestamp, hvalue⟩ := h
  unfold appendSample parseSample
  cases hfirst : floatOf U sample.1 with
  | error e =>
      have hcaught := (floatOf_error hfirst).resolve_right fun he => htimestamp (he ▸ hfirst)
      have hstamp : stamp U sample = none := by rw [stamp, hfirst]; rfl
      simp [hcaught, hstamp]
  | ok timestamp =>
      have hstamp : stamp U sample = some timestamp := by rw [stamp, hfirst]; rfl
      cases hsecond : floatOf U sample.2 with
      | error e =>
          have hcaught := (floatOf_error hsecond).resolve_right fun he =>
            hvalue ⟨by rw [hstamp]; rfl, he ▸ hsecond⟩
          simp [hcaught, hstamp]
      | ok value => simp [hstamp]

/-! ## One device -/

variable (U) in
/-- The two lists of a device. -/
def listsOf (samples : List (Json × Json)) : List PyFloat × List PyFloat :=
  (samples.filterMap (stamp U), (samples.filterMap (parseSample U)).map Prod.snd)

/-- The lists after some samples. -/
theorem foldl_lists (samples : List (Json × Json)) (lists : List PyFloat × List PyFloat) :
    samples.foldl (fun lists sample => (lists.1 ++ (stamp U sample).toList,
      lists.2 ++ ((parseSample U sample).map Prod.snd).toList)) lists =
      (lists.1 ++ (listsOf U samples).1, lists.2 ++ (listsOf U samples).2) := by
  induction samples generalizing lists with
  | nil => simp [listsOf]
  | cons sample samples ih =>
      rw [List.foldl_cons, ih]
      unfold listsOf
      cases hstamp : stamp U sample <;> cases hparse : parseSample U sample <;>
        simp [hstamp, hparse]

/-- The samples are read exactly when none of them raises. -/
theorem readSamples_iff {samples : List (Json × Json)} {lists : List PyFloat × List PyFloat} :
    samples.foldlM (appendSample U) ([], []) = .ok lists ↔
      (∀ sample ∈ samples, ¬ Raises U sample) ∧ listsOf U samples = lists := by
  rw [foldlM_eq_ok_iff (fun lists _ => appendSample_of_not_raises lists)
    (fun lists _ => appendSample_of_raises lists), foldl_lists]
  simp

/-- A whole sample has its stamp. -/
theorem stamp_of_parseSample {sample : Json × Json} {pair : PyFloat × PyFloat}
    (h : parseSample U sample = some pair) : stamp U sample = some pair.1 := by
  unfold parseSample at h
  unfold stamp
  cases hfirst : floatOf U sample.1 with
  | error e =>
      rw [hfirst] at h
      cases h
  | ok timestamp =>
      cases hsecond : floatOf U sample.2 with
      | error e =>
          rw [hfirst, hsecond] at h
          cases h
      | ok value =>
          rw [hfirst, hsecond] at h
          obtain rfl := Option.some.inj h
          rfl

/-- There are no fewer timestamps than pairs. -/
theorem length_parsed_le (samples : List (Json × Json)) :
    (samples.filterMap (parseSample U)).length ≤ (samples.filterMap (stamp U)).length := by
  induction samples with
  | nil => exact le_refl 0
  | cons sample samples ih =>
      cases hparse : parseSample U sample with
      | none =>
          rw [List.filterMap_cons_none hparse]
          cases hstamp : stamp U sample with
          | none => rwa [List.filterMap_cons_none hstamp]
          | some timestamp =>
              rw [List.filterMap_cons_some hstamp, List.length_cons]
              omega
      | some pair =>
          rw [List.filterMap_cons_some hparse,
            List.filterMap_cons_some (stamp_of_parseSample hparse), List.length_cons,
            List.length_cons]
          omega

/-- The timestamps are those of the pairs just if none has been left behind. -/
theorem stamps_eq_iff {samples : List (Json × Json)} :
    samples.filterMap (stamp U) = (samples.filterMap (parseSample U)).map Prod.fst ↔
      ∀ sample ∈ samples, (stamp U sample).isSome → (parseSample U sample).isSome := by
  induction samples with
  | nil => simp
  | cons sample samples ih =>
      rw [List.forall_mem_cons]
      refine Iff.trans ?_ (and_congr_right' ih)
      cases hparse : parseSample U sample with
      | some pair =>
          rw [List.filterMap_cons_some hparse,
            List.filterMap_cons_some (stamp_of_parseSample hparse), List.map_cons,
            List.cons_inj_right]
          simp
      | none =>
          rw [List.filterMap_cons_none hparse]
          cases hstamp : stamp U sample with
          | none =>
              rw [List.filterMap_cons_none hstamp]
              simp
          | some timestamp =>
              rw [List.filterMap_cons_some hstamp]
              constructor
              · intro heq
                have hlength := congrArg List.length heq
                have hfewer := length_parsed_le (U := U) samples
                rw [List.length_cons, List.length_map] at hlength
                omega
              · intro h
                exact absurd (h.1 rfl) (by simp)

/-- A sample is sound when it does not raise and is read whole or not at all. -/
theorem sound_iff {sample : Json × Json} : Sound U sample ↔
    ¬ Raises U sample ∧ ((stamp U sample).isSome → (parseSample U sample).isSome) := by
  unfold Raises stamp parseSample
  cases hfirst : floatOf U sample.1 with
  | error e =>
      have hstamp : (Except.error e : Except PyRaised PyFloat).toOption = none := rfl
      rw [hstamp]
      constructor
      · intro h
        have hrange := h.inRange
        rw [hfirst] at hrange
        exact ⟨fun hraises => hraises.elim hrange fun hvalue => (nomatch hvalue.1),
          fun hsome => (nomatch hsome)⟩
      · intro h
        refine ⟨fun herror => h.1 (.inl (hfirst ▸ herror)), fun timestamp hok => ?_⟩
        rw [hfirst] at hok
        cases hok
  | ok timestamp =>
      have hstamp : (Except.ok timestamp : Except PyRaised PyFloat).toOption =
          some timestamp := rfl
      rw [hstamp]
      constructor
      · intro h
        obtain ⟨value, hvalue⟩ := h.paired timestamp hfirst
        rw [hvalue]
        exact ⟨fun hraises => hraises.elim (fun he => (nomatch he)) fun he => (nomatch he.2),
          fun _ => rfl⟩
      · intro h
        refine ⟨fun herror => ?_, fun other hok => ?_⟩
        · rw [hfirst] at herror
          cases herror
        · cases hsecond : floatOf U sample.2 with
          | ok value => exact ⟨value, rfl⟩
          | error e =>
              have hsome := h.2 rfl
              rw [hsecond] at hsome
              cases hsome

/-! ## All devices -/

variable {labelKey : String} {series : List (String × List PyFloat × List PyFloat)}
variable {r : RangeSeries} {resultList : List RangeSeries}

variable (U labelKey) in
/-- What a device adds to the dictionary. -/
def enter (series : List (String × List PyFloat × List PyFloat)) (r : RangeSeries) :
    List (String × List PyFloat × List PyFloat) :=
  if (listsOf U r.rawValues).1 = [] then series
  else setItem (r.device labelKey) (listsOf U r.rawValues) series

/-- A series with a raising sample raises. -/
theorem extractSeries_of_raises (h : ∃ sample ∈ r.rawValues, Raises U sample) :
    ∃ e, extractSeries U labelKey series r = .error e := by
  obtain ⟨sample, hsample, hraises⟩ := h
  cases hread : r.rawValues.foldlM (appendSample U) ([], []) with
  | error e =>
      refine ⟨e, ?_⟩
      rw [extractSeries, hread]
      rfl
  | ok lists => exact absurd hraises ((readSamples_iff.mp hread).1 sample hsample)

/-- Another series is entered under its device. -/
theorem extractSeries_of_not_raises (h : ¬ ∃ sample ∈ r.rawValues, Raises U sample) :
    extractSeries U labelKey series r = .ok (enter U labelKey series r) := by
  push Not at h
  rw [extractSeries, readSamples_iff.mpr ⟨h, rfl⟩]
  rfl

/-- Other devices leave the entry alone. -/
theorem lookup_foldl_enter_of_not_mem {key : String}
    (hkey : key ∉ resultList.map (RangeSeries.device · labelKey)) :
    (resultList.foldl (enter U labelKey) series).lookup key = series.lookup key := by
  induction resultList generalizing series with
  | nil => rfl
  | cons r resultList ih =>
      rw [List.map_cons, List.mem_cons, not_or] at hkey
      rw [List.foldl_cons, ih hkey.2, enter]
      by_cases hnone : (listsOf U r.rawValues).1 = []
      · rw [if_pos hnone]
      · rw [if_neg hnone, lookup_setItem_ne hkey.1]

theorem listsOf_eq_nil {samples : List (Json × Json)} (h : (listsOf U samples).1 = []) :
    listsOf U samples = ([], []) := by
  have hnone : ∀ sample ∈ samples, parseSample U sample = none := by
    intro sample hsample
    have hstamp := List.filterMap_eq_nil_iff.mp h sample hsample
    cases hparse : parseSample U sample with
    | none => rfl
    | some pair =>
        rw [stamp_of_parseSample hparse] at hstamp
        cases hstamp
  have hvalues : (listsOf U samples).2 = [] := by
    rw [listsOf, List.filterMap_eq_nil_iff.mpr hnone, List.map_nil]
  exact Prod.ext h hvalues

/-- Among distinct devices each finds its own series. -/
theorem lookup_foldl_enter (hdistinct : (resultList.map (RangeSeries.device · labelKey)).Nodup)
    (hr : r ∈ resultList) (hnew : ∀ r ∈ resultList, series.lookup (r.device labelKey) = none) :
    ((resultList.foldl (enter U labelKey) series).lookup (r.device labelKey)).getD ([], []) =
      listsOf U r.rawValues := by
  induction resultList generalizing series with
  | nil => cases hr
  | cons first resultList ih =>
      obtain ⟨hfirst, hdistinct⟩ := List.nodup_cons.mp hdistinct
      obtain ⟨hnone, hnew⟩ := List.forall_mem_cons.mp hnew
      rw [List.foldl_cons]
      rcases List.mem_cons.mp hr with rfl | hr
      · rw [lookup_foldl_enter_of_not_mem hfirst, enter]
        by_cases hempty : (listsOf U r.rawValues).1 = []
        · rw [if_pos hempty, hnone, listsOf_eq_nil hempty]
          rfl
        · rw [if_neg hempty, lookup_setItem_self]
          rfl
      · refine ih hdistinct hr fun other hother => ?_
        have hne : other.device labelKey ≠ first.device labelKey := fun heq =>
          hfirst (List.mem_map.mpr ⟨other, hother, heq⟩)
        rw [enter]
        by_cases hempty : (listsOf U first.rawValues).1 = []
        · rw [if_pos hempty]
          exact hnew other hother
        · rw [if_neg hempty, lookup_setItem_ne hne]
          exact hnew other hother

/-- **The series of the devices.**  They are those of the samples which parse if and only if no
timestamp parses without its value, and none is out of range. -/
theorem extracts_iff (U : CharTables) (labelKey : String) (resultList : List RangeSeries)
    (hdistinct : (resultList.map (RangeSeries.device · labelKey)).Nodup) :
    Extracts U resultList labelKey ↔
      ∀ r ∈ resultList, ∀ sample ∈ r.rawValues, Sound U sample := by
  have hloop : ∀ series, extractDeviceSeries U resultList labelKey = .ok series ↔
      (∀ r ∈ resultList, ¬ ∃ sample ∈ r.rawValues, Raises U sample) ∧
        resultList.foldl (enter U labelKey) [] = series := fun series =>
    foldlM_eq_ok_iff (fun _ _ => extractSeries_of_not_raises) (fun _ _ => extractSeries_of_raises)
  have hentry : ∀ r ∈ resultList,
      ((resultList.foldl (enter U labelKey) []).lookup (r.device labelKey)).getD ([], []) =
        listsOf U r.rawValues := fun r hr => lookup_foldl_enter hdistinct hr fun _ _ => rfl
  have hparallel : ∀ r : RangeSeries,
      listsOf U r.rawValues = (r.rawValues.filterMap (parseSample U)).unzip ↔
        ∀ sample ∈ r.rawValues, (stamp U sample).isSome → (parseSample U sample).isSome := by
    intro r
    rw [← stamps_eq_iff, List.unzip_eq_map, listsOf, Prod.mk.injEq]
    exact and_iff_left rfl
  unfold Extracts
  simp only [hloop, sound_iff]
  constructor
  · intro h r hr sample hsample
    obtain ⟨series, ⟨hraises, rfl⟩, hlists⟩ := h
    have hequal := (hentry r hr).symm.trans (hlists r hr)
    exact ⟨fun hraised => hraises r hr ⟨sample, hsample, hraised⟩,
      (hparallel r).mp hequal sample hsample⟩
  · intro h
    refine ⟨_, ⟨fun r hr hraises => ?_, rfl⟩, fun r hr => ?_⟩
    · obtain ⟨sample, hsample, hraised⟩ := hraises
      exact (h r hr sample hsample).1 hraised
    · rw [hentry r hr, hparallel r]
      exact fun sample hsample => (h r hr sample hsample).2

end Extract

/-- A range result of one device. -/
def deviceResult (samples : List (Json × Json)) : List RangeSeries :=
  [⟨some [("device", "nvme0n1")], some samples⟩]

/-- A sample without a stamp puts the lists out of step. -/
theorem extracts_two_samples :
    Extracts asciiTables (deviceResult [(.num (.fin 1), .str "5"), (.null, .str "6")]) "device" ↔
      ∀ r ∈ deviceResult [(.num (.fin 1), .str "5"), (.null, .str "6")],
        ∀ sample ∈ r.rawValues, Sound asciiTables sample :=
  extracts_iff asciiTables "device"
    (deviceResult [(.num (.fin 1), .str "5"), (.null, .str "6")]) (by decide)

/-- The second value is no number; the timestamps are three, and the values two. -/
theorem value_left_out : ¬ Extracts asciiTables (deviceResult
    [(.num (.fin 1), .str "5"), (.num (.fin 2), .str "n/a"), (.num (.fin 3), .str "6")])
    "device" := by
  have hrun : extractDeviceSeries asciiTables (deviceResult
      [(.num (.fin 1), .str "5"), (.num (.fin 2), .str "n/a"), (.num (.fin 3), .str "6")])
      "device" = .ok [("nvme0n1", [.fin 1, .fin 2, .fin 3], [.fin 5, .fin 6])] := by
    decide +kernel
  have hparsed : [((.num (.fin 1), .str "5") : Json × Json), (.num (.fin 2), .str "n/a"),
      (.num (.fin 3), .str "6")].filterMap (parseSample asciiTables) =
      [(.fin 1, .fin 5), (.fin 3, .fin 6)] := by
    decide +kernel
  intro h
  obtain ⟨series, hseries, hlists⟩ := h
  rw [hrun] at hseries
  obtain rfl := Except.ok.inj hseries
  have hdevice := hlists _ List.mem_cons_self
  unfold RangeSeries.rawValues at hdevice
  rw [Option.getD_some, hparsed] at hdevice
  revert hdevice
  decide

end FaultOracle.Wear
