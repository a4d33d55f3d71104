import Mathlib.Algebra.Order.Ring.Rat
import FaultOracle.LeastSquares

/-!
# The two regressions

`storage/wear_predictor.py` and `aging/dimm_aging_report.py` each fit a line by least squares
with no library: `ols_slope_intercept` answers `None` where there is no such line, and
`linear_regression` a horizontal line, and with it the share of the spread that the line explains.

Both are the best line wherever there is one (`best_line`).
-/

namespace FaultOracle.Regression

open SampleMoments LeastSquares

/-- `ols_slope_intercept`. -/
def olsSlopeIntercept (xs ys : List ℚ) : Except ArithmeticError (Option ℚ × Option ℚ) :=
  let n := xs.length
  if n < 2 then .ok (none, none)
  else
    let sumX := xs.sum
    let sumY := ys.sum
    let sumXY := ((xs.zip ys).map fun p => p.1 * p.2).sum
    let sumXX := (xs.map fun x => x * x).sum
    let denom := n * sumXX - sumX * sumX
    if denom = 0 then .ok (none, none)
    else do
      let slope ← divide (n * sumXY - sumX * sumY) denom
      let intercept ← divide (sumY - slope * sumX) n
      return (some slope, some intercept)

/-- `linear_regression`: slope, intercept and R². -/
def linearRegression (xVals yVals : List ℚ) : Except ArithmeticError (ℚ × ℚ × ℚ) :=
  let n := xVals.length
  if n < 2 then .ok (0, yVals.headD 0, 0)
  else
    let sumX := xVals.sum
    let sumY := yVals.sum
    let sumXX := (xVals.map fun x => x * x).sum
    let sumXY := ((xVals.zip yVals).map fun p => p.1 * p.2).sum
    let denom := n * sumXX - sumX ^ 2
    if denom = 0 then do
      let intercept ← divide sumY n
      return (0, intercept, 0)
    else do
      let slope ← divide (n * sumXY - sumX * sumY) denom
      let intercept ← divide (sumY - slope * sumX) n
      let yMean ← divide sumY n
      let ssTot := (yVals.map fun y => (y - yMean) ^ 2).sum
      let yPred := xVals.map fun x => slope * x + intercept
      let ssRes := ((yVals.zip yPred).map fun p => (p.1 - p.2) ^ 2).sum
      if ssTot > 0 then
        let ratio ← divide ssRes ssTot
        return (slope, intercept, 1 - ratio)
      else return (slope, intercept, 0)

/-- No line is better than every other: a single point, or points above one another. -/
def Degenerate (xs : List ℚ) : Prop := xs.length < 2 ∨ ∀ x ∈ xs, ∀ x' ∈ xs, x = x'

/-- The sum of the squared residuals of a line. -/
def sumSqResiduals (xs ys : List ℚ) (slope intercept : ℚ) : ℚ :=
  ((xs.zip ys).map fun p => (p.2 - (slope * p.1 + intercept)) ^ 2).sum

/-! ## The sums -/

section Points

variable (points : List (ℚ × ℚ))

/-- Two lists of one length are the coordinates of some points. -/
theorem exists_points {xs ys : List ℚ} (h : xs.length = ys.length) :
    ∃ points : List (ℚ × ℚ), points.map Prod.fst = xs ∧ points.map Prod.snd = ys :=
  ⟨xs.zip ys, List.map_fst_zip h.le, List.map_snd_zip h.ge⟩

/-- The sum of products as the code takes it. -/
theorem sum_products :
    (((points.map Prod.fst).zip (points.map Prod.snd)).map fun p => p.1 * p.2).sum =
      total (fun p => p.1 * p.2) points := by
  rw [List.zip_map', List.map_map]
  rfl

/-- The sum of squares as the code takes it. -/
theorem sum_squares : ((points.map Prod.fst).map fun x => x * x).sum =
    total (fun p => p.1 * p.1) points := by
  rw [List.map_map]
  rfl

/-- The residuals as the code takes them. -/
theorem sumSqResiduals_eq (a b : ℚ) :
    sumSqResiduals (points.map Prod.fst) (points.map Prod.snd) a b =
      residuals Prod.fst Prod.snd a b points := by
  rw [sumSqResiduals, List.zip_map', List.map_map]
  rfl

theorem sum_fst : (points.map Prod.fst).sum = total Prod.fst points := rfl

theorem sum_snd : (points.map Prod.snd).sum = total Prod.snd points := rfl

/-- The denominator is zero exactly when all the first coordinates are equal. -/
theorem denom_eq_zero_iff :
    denominator Prod.fst points = 0 ↔ Degenerate (points.map Prod.fst) := by
  rw [denominator_eq_zero_iff, Degenerate]
  simp only [List.forall_mem_map, List.length_map]
  constructor
  · exact .inr
  · intro h
    rcases h with hshort | hsame
    · cases points with
      | nil => simp
      | cons p points =>
          obtain rfl : points = [] := List.eq_nil_of_length_eq_zero (by
            rw [List.length_cons] at hshort
            omega)
          simp
    · exact hsame

/-- The slope's division does not raise. -/
theorem divide_slope (h : denominator Prod.fst points ≠ 0) :
    divide (points.length * total (fun p => p.1 * p.2) points -
      total Prod.fst points * total Prod.snd points) (denominator Prod.fst points) =
      .ok (lineSlope Prod.fst Prod.snd points) := divide_of_ne h _

/-- The intercept's division does not raise. -/
theorem divide_intercept (h : (points.length : ℚ) ≠ 0) :
    divide (total Prod.snd points -
      lineSlope Prod.fst Prod.snd points * total Prod.fst points) (points.length : ℚ) =
      .ok (lineIntercept Prod.fst Prod.snd points) := divide_of_ne h _

/-- A nonzero denominator needs two points. -/
theorem two_le_length (h : denominator Prod.fst points ≠ 0) : ¬ points.length < 2 := by
  intro hshort
  apply h
  rw [denom_eq_zero_iff]
  exact .inl (by rwa [List.length_map])

/-! ## The results -/

/-- What the forecaster's regression returns. -/
theorem olsSlopeIntercept_eq :
    olsSlopeIntercept (points.map Prod.fst) (points.map Prod.snd) =
      .ok (if denominator Prod.fst points = 0 then (none, none)
        else (some (lineSlope Prod.fst Prod.snd points),
          some (lineIntercept Prod.fst Prod.snd points))) := by
  by_cases hdenom : denominator Prod.fst points = 0
  · rw [if_pos hdenom]
    unfold denominator at hdenom
    simp only [olsSlopeIntercept, sum_products, sum_squares, sum_fst, sum_snd, List.length_map,
      hdenom, if_true, ite_self]
  · have hshort := two_le_length points hdenom
    have hlength : (points.length : ℚ) ≠ 0 := Nat.cast_ne_zero.mpr (by omega)
    have hslope := divide_slope points hdenom
    have hintercept := divide_intercept points hlength
    rw [if_neg hdenom]
    unfold denominator at hdenom hslope
    simp only [olsSlopeIntercept, sum_products, sum_squares, sum_fst, sum_snd, List.length_map,
      if_neg hshort, if_neg hdenom, hslope, hintercept, ok_bind]
    rfl

/-- The share of the spread which the line explains. -/
def explained (points : List (ℚ × ℚ)) : ℚ :=
  if 0 < spread Prod.snd points then
    1 - residuals Prod.fst Prod.snd (lineSlope Prod.fst Prod.snd points)
      (lineIntercept Prod.fst Prod.snd points) points / spread Prod.snd points
  else 0

/-- The best line leaves no more than the mean does. -/
theorem explained_mem (h : denominator Prod.fst points ≠ 0) :
    0 ≤ explained points ∧ explained points ≤ 1 := by
  unfold explained
  by_cases hspread : 0 < spread Prod.snd points
  · have hbest := residuals_minimal (balanced_line (y := Prod.snd) h) 0 (mean Prod.snd points)
    have hleft := residuals_nonneg Prod.fst Prod.snd (lineSlope Prod.fst Prod.snd points)
      (lineIntercept Prod.fst Prod.snd points) points
    rw [residuals_mean] at hbest
    rw [if_pos hspread]
    have hratio := div_le_one_of_le₀ hbest hspread.le
    have hratio' := div_nonneg hleft hspread.le
    exact ⟨by linarith, by linarith⟩
  · rw [if_neg hspread]
    exact ⟨le_refl 0, zero_le_one⟩

/-- The predictor's regression on equal first coordinates has slope zero. -/
theorem linearRegression_of_degenerate (h : denominator Prod.fst points = 0) :
    ∃ intercept,
      linearRegression (points.map Prod.fst) (points.map Prod.snd) = .ok (0, intercept, 0) := by
  by_cases hshort : points.length < 2
  · refine ⟨(points.map Prod.snd).headD 0, ?_⟩
    simp only [linearRegression, List.length_map, if_pos hshort]
  · have hlength : (points.length : ℚ) ≠ 0 := Nat.cast_ne_zero.mpr (by omega)
    refine ⟨total Prod.snd points / points.length, ?_⟩
    have hmean := divide_of_ne hlength (total Prod.snd points)
    unfold denominator at h
    simp only [linearRegression, sum_products, sum_squares, sum_fst, sum_snd, List.length_map,
      if_neg hshort, sq, h, if_true, hmean]
    rfl

/-- What the predictor's regression returns otherwise. -/
theorem linearRegression_eq (h : denominator Prod.fst points ≠ 0) :
    linearRegression (points.map Prod.fst) (points.map Prod.snd) =
      .ok (lineSlope Prod.fst Prod.snd points, lineIntercept Prod.fst Prod.snd points,
        explained points) := by
  have hshort := two_le_length points h
  have hlength : (points.length : ℚ) ≠ 0 := Nat.cast_ne_zero.mpr (by omega)
  have hslope := divide_slope points h
  have hintercept := divide_intercept points hlength
  have hmean : divide (total Prod.snd points) (points.length : ℚ) =
      .ok (mean Prod.snd points) := divide_of_ne hlength _
  have hdenom : points.length * total (fun p => p.1 * p.1) points - total Prod.fst points ^ 2 =
      denominator Prod.fst points := by rw [denominator, sq]
  have htotal : ((points.map Prod.snd).map fun y => (y - mean Prod.snd points) ^ 2).sum =
      spread Prod.snd points := by
    rw [List.map_map]
    rfl
  have hresidual : (((points.map Prod.snd).zip ((points.map Prod.fst).map fun x =>
      lineSlope Prod.fst Prod.snd points * x + lineIntercept Prod.fst Prod.snd points)).map
      fun p => (p.1 - p.2) ^ 2).sum = residuals Prod.fst Prod.snd
        (lineSlope Prod.fst Prod.snd points) (lineIntercept Prod.fst Prod.snd points) points := by
    rw [List.map_map, List.zip_map', List.map_map]
    rfl
  simp only [linearRegression, sum_products, sum_squares, sum_fst, sum_snd, List.length_map,
    if_neg hshort, hdenom, if_neg h, hslope, hintercept, hmean, ok_bind, htotal, hresidual]
  unfold explained
  by_cases hspread : 0 < spread Prod.snd points
  · have hratio := divide_of_ne hspread.ne' (residuals Prod.fst Prod.snd
      (lineSlope Prod.fst Prod.snd points) (lineIntercept Prod.fst Prod.snd points) points)
    rw [if_pos hspread, if_pos hspread, hratio]
    rfl
  · rw [if_neg hspread, if_neg hspread]
    rfl

end Points

/-- **The two regressions.**  There is no line just for degenerate abscissas, otherwise it is the
best one; the report has the same, and R² is a share.  No division fails. -/
theorem best_line {xs ys : List ℚ} (h : xs.length = ys.length) :
    (olsSlopeIntercept xs ys = .ok (none, none) ↔ Degenerate xs) ∧
    (¬ Degenerate xs → ∃ slope intercept rSq,
      olsSlopeIntercept xs ys = .ok (some slope, some intercept) ∧
      (∀ a b, sumSqResiduals xs ys slope intercept ≤ sumSqResiduals xs ys a b) ∧
      linearRegression xs ys = .ok (slope, intercept, rSq) ∧ 0 ≤ rSq ∧ rSq ≤ 1) ∧
    (∃ fit, olsSlopeIntercept xs ys = .ok fit) ∧ ∃ fit, linearRegression xs ys = .ok fit := by
  obtain ⟨points, rfl, rfl⟩ := exists_points h
  rw [← denom_eq_zero_iff, olsSlopeIntercept_eq]
  by_cases hdenom : denominator Prod.fst points = 0
  · obtain ⟨intercept, hreport⟩ := linearRegression_of_degenerate points hdenom
    rw [if_pos hdenom]
    exact ⟨⟨fun _ => hdenom, fun _ => rfl⟩, fun hne => (hne hdenom).elim, ⟨_, rfl⟩, _, hreport⟩
  · have hreport := linearRegression_eq points hdenom
    have hbalanced := balanced_line (y := Prod.snd) hdenom
    obtain ⟨hnonneg, hle⟩ := explained_mem points hdenom
    rw [if_neg hdenom]
    refine ⟨⟨fun heq => by simp at heq, fun hzero => (hdenom hzero).elim⟩, fun _ => ?_,
      ⟨_, rfl⟩, _, hreport⟩
    refine ⟨lineSlope Prod.fst Prod.snd points, lineIntercept Prod.fst Prod.snd points,
      explained points, rfl, fun a b => ?_, hreport, hnonneg, hle⟩
    rw [sumSqResiduals_eq, sumSqResiduals_eq]
    exact residuals_minimal hbalanced a b

/-- The laws at three points. -/
theorem best_line_of_three :
    (olsSlopeIntercept [0, 1, 2] [1, 3, 2] = .ok (none, none) ↔ Degenerate [0, 1, 2]) ∧
    (¬ Degenerate [0, 1, 2] → ∃ slope intercept rSq,
      olsSlopeIntercept [0, 1, 2] [1, 3, 2] = .ok (some slope, some intercept) ∧
      (∀ a b, sumSqResiduals [0, 1, 2] [1, 3, 2] slope intercept ≤
        sumSqResiduals [0, 1, 2] [1, 3, 2] a b) ∧
      linearRegression [0, 1, 2] [1, 3, 2] = .ok (slope, intercept, rSq) ∧ 0 ≤ rSq ∧ rSq ≤ 1) ∧
    (∃ fit, olsSlopeIntercept [0, 1, 2] [1, 3, 2] = .ok fit) ∧
      ∃ fit, linearRegression [0, 1, 2] [1, 3, 2] = .ok fit :=
  best_line rfl

end FaultOracle.Regression
