import FaultOracle.LinearFits

/-!
# The wear predictor

`predict_device` of `storage/wear_predictor.py` fits a line through what a device has reported and
asks when it will reach 100 percent.  It answers that there is not enough data before it tries,
so that the regression never fails on it; a positive slope gives the hours that remain, not
below 0, and the days, not above ten years.

Two runs are compared as well: the origin of the timestamps does not matter, and a device that is
worn further by the same amount throughout has no longer to go.
-/

namespace FaultOracle.Wear

open SampleMoments LeastSquares FaultOracle.Regression

def minHistoryHours : ℚ := 72

def maxDays : ℚ := 3650

/-- The dictionary which `predict_device` returns. -/
structure Prediction where
  insufficientData : Bool
  slopePerHour : Option ℚ
  hoursRemaining : Option ℚ
  daysRemaining : Option ℚ
  ratePctPerDay : Option ℚ
  prob90d : Option ℚ
  currentValue : Option ℚ
deriving DecidableEq

/-- `result` as it begins. -/
def Prediction.initial : Prediction where
  insufficientData := false
  slopePerHour := none
  hoursRemaining := none
  daysRemaining := none
  ratePctPerDay := none
  prob90d := none
  currentValue := none

/-- `predict_device`. -/
def predictDevice (timestamps values : List ℚ) : Except ArithmeticError Prediction :=
  let result := Prediction.initial
  if timestamps = [] ∨ values = [] ∨ timestamps.length ≠ values.length then
    .ok { result with insufficientData := true }
  else
    -- neither list is empty here, so the defaults are not used
    let t0 := timestamps.headD 0
    let hours := timestamps.map fun t => (t - t0) / 3600
    let spanHours := hours.getLastD 0 - hours.headD 0
    if spanHours < minHistoryHours then .ok { result with insufficientData := true }
    else do
      let fit ← olsSlopeIntercept hours values
      match fit.1 with
      | none => return { result with insufficientData := true }
      | some slope =>
          let result := { result with
            currentValue := some (values.getLastD 0)
            slopePerHour := some slope }
          if slope ≤ 0 then return result
          else
            let currentValue := values.getLastD 0
            let ratePctPerDay := slope * 24
            let quotient ← divide (100 - currentValue) slope
            let hoursRemaining := if quotient < 0 then 0 else quotient
            let daysRemaining := min (hoursRemaining / 24) maxDays
            return { result with
              ratePctPerDay := some ratePctPerDay
              hoursRemaining := some hoursRemaining
              daysRemaining := some daysRemaining
              prob90d := some (if hoursRemaining < 90 * 24 then 1 else 0) }

/-- There is nothing to fit a line to, or it was not observed for three days. -/
def Insufficient (timestamps values : List ℚ) : Prop :=
  timestamps = [] ∨ values = [] ∨ timestamps.length ≠ values.length ∨
    timestamps.getLastD 0 - timestamps.headD 0 < 72 * 3600

/-! ## The line -/

/-- `hours`. -/
def hoursOf (timestamps : List ℚ) : List ℚ :=
  timestamps.map fun t => (t - timestamps.headD 0) / 3600

/-- The slope of the line, where there is one. -/
def wearSlope (timestamps values : List ℚ) : ℚ :=
  lineSlope Prod.fst Prod.snd ((hoursOf timestamps).zip values)

/-- The hours until the line reaches 100, but not before the last sample. -/
def hoursLeft (slope currentValue : ℚ) : ℚ :=
  if (100 - currentValue) / slope < 0 then 0 else (100 - currentValue) / slope

/-- What is predicted of a line. -/
def predicted (slope currentValue : ℚ) : Prediction :=
  if slope ≤ 0 then
    { Prediction.initial with currentValue := some currentValue, slopePerHour := some slope }
  else
    { insufficientData := false
      slopePerHour := some slope
      hoursRemaining := some (hoursLeft slope currentValue)
      daysRemaining := some (min (hoursLeft slope currentValue / 24) maxDays)
      ratePctPerDay := some (slope * 24)
      prob90d := some (if hoursLeft slope currentValue < 90 * 24 then 1 else 0)
      currentValue := some currentValue }

section Hours

variable {timestamps values : List ℚ}

/-- The span in hours is the span in seconds, scaled. -/
theorem span_hoursOf (h : timestamps ≠ []) :
    (hoursOf timestamps).getLastD 0 - (hoursOf timestamps).headD 0 =
      (timestamps.getLastD 0 - timestamps.headD 0) / 3600 := by
  cases timestamps with
  | nil => exact (h rfl).elim
  | cons t rest =>
      rw [hoursOf, List.map_cons, List.getLastD_cons, List.headD_cons, List.headD_cons,
        List.getLastD_cons, List.getLastD_map]
      ring

/-- Shifting the clock does not change the hours. -/
theorem hoursOf_add (timestamps : List ℚ) (c : ℚ) :
    hoursOf (timestamps.map fun t => t + c) = hoursOf timestamps := by
  cases timestamps with
  | nil => rfl
  | cons t rest =>
      rw [hoursOf, hoursOf, List.map_map]
      apply List.map_congr_left
      intro s _
      simp

/-- The ends of a list are in it. -/
theorem mem_ends {l : List ℚ} (h : l ≠ []) : l.headD 0 ∈ l ∧ l.getLastD 0 ∈ l := by
  cases l with
  | nil => exact (h rfl).elim
  | cons a l =>
      refine ⟨List.mem_cons_self, ?_⟩
      rw [List.getLastD_cons]
      exact List.getLastD_mem_cons

/-- Three days apart, the first and the last sample are not above one another. -/
theorem not_degenerate (h : ¬ Insufficient timestamps values) :
    ¬ Degenerate (hoursOf timestamps) := by
  unfold Insufficient at h
  push Not at h
  obtain ⟨hne, -, -, hspan⟩ := h
  have hhours : hoursOf timestamps ≠ [] := mt List.map_eq_nil_iff.mp hne
  obtain ⟨hhead, hlast⟩ := mem_ends hhours
  have hscaled := span_hoursOf hne
  have hdifferent : (hoursOf timestamps).getLastD 0 ≠ (hoursOf timestamps).headD 0 := by
    intro hsame
    rw [hsame, sub_self] at hscaled
    linarith
  intro hdegenerate
  rcases hdegenerate with hshort | hsame
  · obtain ⟨a, ha⟩ := List.length_eq_one_iff.mp
      (le_antisymm (by omega) (List.length_pos_of_ne_nil hhours))
    rw [ha] at hdifferent
    exact hdifferent rfl
  · exact hdifferent (hsame _ hlast _ hhead)

end Hours

/-! ## The prediction -/

section Prediction

variable {timestamps values : List ℚ}

/-- Where the data do not suffice only that is said. -/
theorem predictDevice_of_insufficient (h : Insufficient timestamps values) :
    predictDevice timestamps values =
      .ok { Prediction.initial with insufficientData := true } := by
  by_cases hlists : timestamps = [] ∨ values = [] ∨ timestamps.length ≠ values.length
  · simp only [predictDevice, if_pos hlists]
  · have hspan : timestamps.getLastD 0 - timestamps.headD 0 < 72 * 3600 := by
      unfold Insufficient at h
      tauto
    have hne : timestamps ≠ [] := fun hnil => hlists (.inl hnil)
    have hshort : (hoursOf timestamps).getLastD 0 - (hoursOf timestamps).headD 0 <
        minHistoryHours := by
      rw [span_hoursOf hne, minHistoryHours]
      linarith
    unfold hoursOf at hshort
    simp only [predictDevice, if_neg hlists, if_pos hshort]

/-- Where the data suffice the prediction is made from slope and last value. -/
theorem predictDevice_of_sufficient (h : ¬ Insufficient timestamps values) :
    predictDevice timestamps values =
      .ok (predicted (wearSlope timestamps values) (values.getLastD 0)) := by
  have hnotDegenerate := not_degenerate h
  unfold Insufficient at h
  push Not at h
  obtain ⟨hne, hvalues, hlength, hspan⟩ := h
  have hlists : ¬ (timestamps = [] ∨ values = [] ∨ timestamps.length ≠ values.length) := by
    tauto
  have hlong : ¬ (hoursOf timestamps).getLastD 0 - (hoursOf timestamps).headD 0 <
      minHistoryHours := by
    rw [span_hoursOf hne, minHistoryHours]
    linarith
  have hhours : (hoursOf timestamps).length = values.length := by
    rw [hoursOf, List.length_map, hlength]
  have hpoints := olsSlopeIntercept_eq ((hoursOf timestamps).zip values)
  have hdenom : denominator Prod.fst ((hoursOf timestamps).zip values) ≠ 0 := by
    rw [ne_eq, denom_eq_zero_iff, List.map_fst_zip hhours.le]
    exact hnotDegenerate
  rw [List.map_fst_zip hhours.le, List.map_snd_zip hhours.ge, if_neg hdenom] at hpoints
  unfold hoursOf at hlong hpoints
  simp only [predictDevice, if_neg hlists, if_neg hlong, hpoints, ok_bind]
  unfold predicted wearSlope hoursLeft
  by_cases hslope : lineSlope Prod.fst Prod.snd ((hoursOf timestamps).zip values) ≤ 0
  · have hfalling := hslope
    unfold hoursOf at hfalling
    rw [if_pos hfalling, if_pos hslope]
    rfl
  · have hrising := hslope
    unfold hoursOf at hrising
    have hdivide := divide_of_ne (ne_of_gt (lt_of_not_ge hrising)) (100 - values.getLastD 0)
    rw [if_neg hrising, if_neg hslope, hdivide, ok_bind]
    rfl

/-! ## Two runs -/

/-- Shifting the clock does not change whether the data suffice. -/
theorem insufficient_add_left (c : ℚ) :
    Insufficient (timestamps.map fun t => t + c) values ↔ Insufficient timestamps values := by
  cases timestamps with
  | nil => rfl
  | cons t rest =>
      have hspan : ((t :: rest).map fun t => t + c).getLastD 0 -
          ((t :: rest).map fun t => t + c).headD 0 =
            (t :: rest).getLastD 0 - (t :: rest).headD 0 := by
        rw [List.map_cons, List.getLastD_cons, List.headD_cons, List.headD_cons,
          List.getLastD_cons, List.getLastD_map]
        ring
      unfold Insufficient
      rw [hspan, List.length_map, List.map_eq_nil_iff]

/-- Shifting the wear does not change whether the data suffice. -/
theorem insufficient_add_right (c : ℚ) :
    Insufficient timestamps (values.map fun v => v + c) ↔ Insufficient timestamps values := by
  unfold Insufficient
  rw [List.length_map, List.map_eq_nil_iff]

/-- Shifting the wear does not change its slope. -/
theorem wearSlope_add (timestamps values : List ℚ) (c : ℚ) :
    wearSlope timestamps (values.map fun v => v + c) = wearSlope timestamps values := by
  rw [wearSlope, List.zip_map_right, lineSlope_map]
  exact lineSlope_add Prod.fst Prod.snd _ c

/-- The last of the shifted values. -/
theorem getLastD_add (h : values ≠ []) (c : ℚ) :
    (values.map fun v => v + c).getLastD 0 = values.getLastD 0 + c := by
  cases values with
  | nil => exact (h rfl).elim
  | cons v rest =>
      rw [List.map_cons, List.getLastD_cons, List.getLastD_map, List.getLastD_cons]

/-- The hours left are never negative. -/
theorem hoursLeft_nonneg (slope currentValue : ℚ) : 0 ≤ hoursLeft slope currentValue := by
  unfold hoursLeft
  by_cases hpast : (100 - currentValue) / slope < 0
  · rw [if_pos hpast]
  · rw [if_neg hpast]
    exact not_lt.mp hpast

/-- What is worn further has no longer to go. -/
theorem hoursLeft_le {slope current current' : ℚ} (hslope : 0 < slope)
    (h : current ≤ current') : hoursLeft slope current' ≤ hoursLeft slope current := by
  have hquotient : (100 - current') / slope ≤ (100 - current) / slope :=
    div_le_div_of_nonneg_right (by linarith) hslope.le
  have hnonneg := hoursLeft_nonneg slope current
  unfold hoursLeft at hnonneg ⊢
  by_cases hpast : (100 - current') / slope < 0
  · rw [if_pos hpast]
    exact hnonneg
  · rw [if_neg hpast, if_neg (fun hlt => hpast (lt_of_le_of_lt hquotient hlt))]
    exact hquotient

/-- More wear leaves no more hours. -/
theorem predicted_hoursRemaining_le {slope current current' : ℚ} (h : current ≤ current') :
    Option.Rel (· ≤ ·) (predicted slope current').hoursRemaining
      (predicted slope current).hoursRemaining := by
  unfold predicted
  by_cases hslope : slope ≤ 0
  · rw [if_pos hslope, if_pos hslope]
    exact .none
  · rw [if_neg hslope, if_neg hslope]
    exact .some (hoursLeft_le (lt_of_not_ge hslope) h)

/-- The slope is reported as it is. -/
theorem predicted_slopePerHour (slope current : ℚ) :
    (predicted slope current).slopePerHour = some slope := by
  unfold predicted
  split <;> rfl

/-- A prediction does not say that data are missing. -/
theorem predicted_insufficientData (slope current : ℚ) :
    (predicted slope current).insufficientData = false := by
  unfold predicted
  split <;> rfl

end Prediction

/-- The days are those of a device that is wearing, and the probability is 1 within ninety. -/
def Projects (p : Prediction) : Prop :=
  ∃ hours days prob, p.hoursRemaining = some hours ∧ p.daysRemaining = some days ∧
    p.prob90d = some prob ∧ 0 ≤ days ∧ days ≤ 3650 ∧ (prob = 1 ↔ hours < 2160)

/-- With a positive slope the prediction projects to the end. -/
theorem projects_predicted {slope current : ℚ} (h : 0 < slope) :
    Projects (predicted slope current) := by
  have hnonneg := hoursLeft_nonneg slope current
  have hbound : (90 * 24 : ℚ) = 2160 := by norm_num
  have hprob : (if hoursLeft slope current < 90 * 24 then (1 : ℚ) else 0) = 1 ↔
      hoursLeft slope current < 2160 := by
    rw [hbound]
    by_cases hsoon : hoursLeft slope current < 2160
    · simp [hsoon]
    · simp [hsoon]
  unfold predicted
  rw [if_neg (not_le.mpr h)]
  refine ⟨_, _, _, rfl, rfl, rfl, ?_, min_le_right _ _, hprob⟩
  exact le_min (div_nonneg hnonneg (by norm_num)) (by norm_num [maxDays])

/-- **The prediction.**  It is withheld just where there is not enough data.  Otherwise there is a
slope, and what is projected of a positive one is in range; the origin of the timestamps does not
matter, and values which are all raised give the same slope and no more hours. -/
theorem prediction_laws (timestamps values : List ℚ) :
    ∃ p, predictDevice timestamps values = .ok p ∧
      (p.insufficientData = true ↔ Insufficient timestamps values) ∧
      (¬ Insufficient timestamps values →
        ∃ slope, p.slopePerHour = some slope ∧ (0 < slope → Projects p)) ∧
      (∀ c, predictDevice (timestamps.map fun t => t + c) values = .ok p) ∧
      (∀ c, 0 ≤ c → ∃ p', predictDevice timestamps (values.map fun v => v + c) = .ok p' ∧
        p'.slopePerHour = p.slopePerHour ∧
        Option.Rel (· ≤ ·) p'.hoursRemaining p.hoursRemaining) := by
  by_cases h : Insufficient timestamps values
  · refine ⟨_, predictDevice_of_insufficient h, ⟨fun _ => h, fun _ => rfl⟩, fun hne => (hne h).elim,
      fun c => ?_, fun c _ => ⟨_, ?_, rfl, .none⟩⟩
    · exact predictDevice_of_insufficient ((insufficient_add_left c).mpr h)
    · exact predictDevice_of_insufficient ((insufficient_add_right c).mpr h)
  · have hvalues : values ≠ [] := fun hnil => h (.inr (.inl hnil))
    refine ⟨_, predictDevice_of_sufficient h, ⟨fun htrue => ?_, fun hins => (h hins).elim⟩,
      fun _ => ⟨_, predicted_slopePerHour _ _, projects_predicted⟩, fun c => ?_, fun c hc => ?_⟩
    · rw [predicted_insufficientData] at htrue
      cases htrue
    · have hhours := hoursOf_add timestamps c
      rw [predictDevice_of_sufficient (mt (insufficient_add_left c).mp h), wearSlope, hhours,
        wearSlope]
    · refine ⟨_, predictDevice_of_sufficient (mt (insufficient_add_right c).mp h), ?_, ?_⟩
      · rw [predicted_slopePerHour, predicted_slopePerHour, wearSlope_add]
      · rw [wearSlope_add, getLastD_add hvalues]
        exact predicted_hoursRemaining_le (le_add_of_nonneg_right hc)

example : (predictDevice [0, 72 * 3600, 144 * 3600] [10, 11, 12]).toOption.map
    Prediction.daysRemaining = some (some 264) := by
  decide +kernel

end FaultOracle.Wear
