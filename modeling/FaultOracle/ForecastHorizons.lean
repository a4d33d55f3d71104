import Mathlib.Algebra.Order.Field.Rat
import Mathlib.Data.List.Basic
import Mathlib.Tactic.FieldSimp
import Mathlib.Tactic.Linarith
import Mathlib.Tactic.Positivity

/-!
# The failure probability and its horizon

`failure_probability` of `ml/ce_forecaster.py` is the share of the forecast hours up to a horizon
in which the upper bound of the rate is above a threshold.  A share is not a probability that the
rate exceeds the threshold at some time: a longer horizon may add quiet hours.

`failureProbability_le_iff`: it does not fall exactly when the share among the added hours is at
least that among the earlier ones.

Times are seconds.
-/

namespace FaultOracle.Forecaster

/-- The columns of a row of the forecast which are read. -/
structure ForecastRow where
  ds : ℚ
  yhatUpper : ℚ
deriving DecidableEq

/-- The rows from now up to the horizon. -/
def forecastWindow (now : ℚ) (fc : List ForecastRow) (horizonDays : Int) : List ForecastRow :=
  fc.filter fun row => decide (now ≤ row.ds ∧ row.ds ≤ now + horizonDays * 86400)

/-- How many rows are above the threshold. -/
def countAbove (thresholdRate : ℚ) (rows : List ForecastRow) : Nat :=
  rows.countP fun row => decide (thresholdRate < row.yhatUpper)

/-- `failure_probability`. -/
def failureProbability (now : ℚ) (fc : List ForecastRow) (horizonDays : Int)
    (thresholdRate : ℚ) : ℚ :=
  let window := forecastWindow now fc horizonDays
  if window = [] then 0
  else min 1 ((countAbove thresholdRate window : ℚ) / window.length)

section Horizons

variable {now thresholdRate : ℚ} {fc : List ForecastRow} {h₁ h₂ : Int}

/-- The rows behind the one horizon and up to the other. -/
def addedRows (now : ℚ) (fc : List ForecastRow) (h₁ h₂ : Int) : List ForecastRow :=
  (forecastWindow now fc h₂).filter fun row => decide (now + h₁ * 86400 < row.ds)

theorem countAbove_le_length (rows : List ForecastRow) :
    countAbove thresholdRate rows ≤ rows.length := List.countP_le_length

/-- The share of the rows above the threshold. -/
theorem failureProbability_eq (now : ℚ) (fc : List ForecastRow) (h : Int) (thresholdRate : ℚ) :
    failureProbability now fc h thresholdRate =
      (countAbove thresholdRate (forecastWindow now fc h) : ℚ) /
        (forecastWindow now fc h).length := by
  unfold failureProbability
  by_cases hnil : forecastWindow now fc h = []
  · simp [hnil]
  · have hle : (countAbove thresholdRate (forecastWindow now fc h) : ℚ) /
        (forecastWindow now fc h).length ≤ 1 := by
      apply div_le_one_of_le₀
      · exact_mod_cast countAbove_le_length _
      · positivity
    simp only [if_neg hnil, min_eq_right hle]

theorem failureProbability_mem (now : ℚ) (fc : List ForecastRow) (h : Int) (thresholdRate : ℚ) :
    0 ≤ failureProbability now fc h thresholdRate ∧
      failureProbability now fc h thresholdRate ≤ 1 := by
  rw [failureProbability_eq]
  constructor
  · positivity
  · apply div_le_one_of_le₀
    · exact_mod_cast countAbove_le_length _
    · positivity

/-- The longer window has the rows of the shorter one and those which are added. -/
theorem countP_forecastWindow (now : ℚ) (fc : List ForecastRow) (hle : h₁ ≤ h₂)
    (P : ForecastRow → Bool) :
    (forecastWindow now fc h₂).countP P =
      (forecastWindow now fc h₁).countP P + (addedRows now fc h₁ h₂).countP P := by
  have hend : now + h₁ * 86400 ≤ now + h₂ * 86400 := by
    have hcast : (h₁ : ℚ) ≤ h₂ := by exact_mod_cast hle
    linarith
  have hearly : forecastWindow now fc h₁ = (forecastWindow now fc h₂).filter fun row =>
      !decide (now + h₁ * 86400 < row.ds) := by
    rw [forecastWindow, forecastWindow, List.filter_filter]
    refine List.filter_congr fun row _ => ?_
    by_cases hlate : now + h₁ * 86400 < row.ds
    · simp [hlate, not_le.mpr hlate]
    · have hds := not_lt.mp hlate
      simp [hlate, hds, hds.trans hend]
  rw [hearly, addedRows, Nat.add_comm]
  exact List.countP_eq_countP_filter_add _ _ _

/-- Adding to a share leaves it no smaller when what is added has no smaller one. -/
theorem share_le_iff {a n b m : Nat} (ha : a ≤ n) :
    (a : ℚ) / n ≤ ((a + b : Nat) : ℚ) / ((n + m : Nat) : ℚ) ↔ a * m ≤ b * n := by
  rcases Nat.eq_zero_or_pos n with rfl | hn
  · obtain rfl := Nat.le_zero.mp ha
    simp only [Nat.cast_zero, div_zero, Nat.zero_mul, Nat.mul_zero, le_refl, iff_true]
    positivity
  · have hn : (0 : ℚ) < n := by exact_mod_cast hn
    have hsum : (0 : ℚ) < ((n + m : Nat) : ℚ) := by
      push_cast
      positivity
    rw [div_le_div_iff₀ hn hsum]
    push_cast
    have hcast : (a * m ≤ b * n) ↔ (a : ℚ) * m ≤ (b : ℚ) * n := by
      exact_mod_cast Iff.rfl
    rw [hcast]
    constructor
    · intro h
      linarith
    · intro h
      linarith

/-- **Two horizons.**  The probability is a probability, and it does not fall with the horizon
exactly when the share of the rows above the threshold is no smaller among the added ones. -/
theorem failureProbability_le_iff (now : ℚ) (fc : List ForecastRow) (thresholdRate : ℚ)
    (hle : h₁ ≤ h₂) :
    (∀ h, 0 ≤ failureProbability now fc h thresholdRate ∧
      failureProbability now fc h thresholdRate ≤ 1) ∧
    (failureProbability now fc h₁ thresholdRate ≤ failureProbability now fc h₂ thresholdRate ↔
      countAbove thresholdRate (forecastWindow now fc h₁) * (addedRows now fc h₁ h₂).length ≤
        countAbove thresholdRate (addedRows now fc h₁ h₂) *
          (forecastWindow now fc h₁).length) := by
  refine ⟨fun h => failureProbability_mem now fc h thresholdRate, ?_⟩
  have habove := countP_forecastWindow now fc hle fun row =>
    decide (thresholdRate < row.yhatUpper)
  have hlength := countP_forecastWindow now fc hle fun _ => true
  simp only [List.countP_true] at hlength
  have hcount : countAbove thresholdRate (forecastWindow now fc h₂) =
      countAbove thresholdRate (forecastWindow now fc h₁) +
        countAbove thresholdRate (addedRows now fc h₁ h₂) := habove
  rw [failureProbability_eq, failureProbability_eq, hcount, hlength]
  exact share_le_iff (countAbove_le_length _)

/-- An hour above the threshold, and a quiet one after ten days. -/
def quietLater : List ForecastRow := [⟨3600, 1⟩, ⟨864000, 0⟩]

theorem quietLater_le_iff :
    (∀ h, 0 ≤ failureProbability 0 quietLater h (1 / 1000000) ∧
      failureProbability 0 quietLater h (1 / 1000000) ≤ 1) ∧
    (failureProbability 0 quietLater 7 (1 / 1000000) ≤
        failureProbability 0 quietLater 30 (1 / 1000000) ↔
      countAbove (1 / 1000000) (forecastWindow 0 quietLater 7) *
          (addedRows 0 quietLater 7 30).length ≤
        countAbove (1 / 1000000) (addedRows 0 quietLater 7 30) *
          (forecastWindow 0 quietLater 7).length) :=
  failureProbability_le_iff 0 quietLater (1 / 1000000) (by decide)

/-- The failure is certain within a week, and not within a month. -/
theorem longer_horizon_lower :
    failureProbability 0 quietLater 7 (1 / 1000000) = 1 ∧
      ¬ failureProbability 0 quietLater 7 (1 / 1000000) ≤
        failureProbability 0 quietLater 30 (1 / 1000000) := by
  decide +kernel

end Horizons

end FaultOracle.Forecaster
