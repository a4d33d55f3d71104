import Mathlib.Analysis.Real.Sqrt
import FaultOracle.SampleMoments

/-!
# The z-score detector

`anomaly/zscore_detector.py` compares the present rate of errors with the mean of a baseline, in
units of its standard deviation, and `emit_metrics` calls the rate anomalous when it is further
away than the threshold.  A baseline without spread has the standard deviation 1, so that there
is never a division by zero.

`anomaly_laws` says of the real numbers what the flag means, that it does not depend on origin
or unit, and how many samples of a baseline it can be raised for.
-/

namespace FaultOracle.Zscore

open SampleMoments

/-- What `run` finds out for one series. -/
structure Info (F : Type*) where
  zscore : F
  mean : F
  stddev : F
  stddevClamped : Bool
  current : F

section Detector

variable {F : Type} [Field F] [LinearOrder F] (sqrt : F → F)

/-- `compute_stats`. -/
def computeStats (values : List F) : Except ArithmeticError (F × F × Bool) :=
  if values = [] then .ok (0, 1, true)
  else do
    let n : F := values.length
    let mean ← divide values.sum n
    let variance ← divide (values.map fun x => (x - mean) ^ 2).sum n
    if variance > 0 then return (mean, sqrt variance, false)
    else return (mean, 1, true)

/-- `compute_zscore`. -/
def computeZscore (current mean stddev : F) : Except ArithmeticError F :=
  divide (current - mean) stddev

/-- What `run` does with one series. -/
def examine (history : List F) (curVal : F) : Except ArithmeticError (Info F) := do
  let (mean, stddev, clamped) ← computeStats sqrt history
  let zscore ← computeZscore curVal mean stddev
  return { zscore, mean, stddev, stddevClamped := clamped, current := curVal }

/-- `run`, of the two answers which were read. -/
def run (baseline : List (String × List F)) (current : List (String × F)) :
    Except ArithmeticError (List (String × Info F)) :=
  current.mapM fun item => do
    let info ← examine sqrt ((baseline.lookup item.1).getD []) item.2
    return (item.1, info)

/-- The value of `anomaly_detected`. -/
def detected (info : Info F) (threshold : F) : Nat := if |info.zscore| > threshold then 1 else 0

/-- The lines of a family: its help, its type, and one line for each series. -/
def family (name help : String) (value : Info F → String) (items : List (String × Info F)) :
    List String :=
  [s!"# HELP {name} {help}", s!"# TYPE {name} gauge"] ++
    items.map fun item => s!"{name}\x7b{item.1}\x7d {value item.2}"

-- how a number is written with the given count of decimals
variable (format : Nat → F → String)

/-- The lines of `emit_metrics`. -/
def emitLines (now : F) (zscores : List (String × Info F)) (threshold : F) : List String :=
  let items := zscores.mergeSort fun a b => decide (a.1 ≤ b.1)
  family "anomaly_zscore" "Z-score of current error rate vs 7-day baseline."
    (fun info => format 4 info.zscore) items ++
  family "anomaly_detected" "1 if Z-score exceeds threshold (anomaly detected)."
    (fun info => toString (detected info threshold)) items ++
  family "anomaly_baseline_mean" "Baseline mean of error rate over window."
    (fun info => format 6 info.mean) items ++
  family "anomaly_baseline_stddev" "Baseline stddev of error rate over window."
    (fun info => format 6 info.stddev) items ++
  family "anomaly_synthetic_stddev"
    "1 if stddev was clamped to 1.0 (constant or empty baseline)."
    (fun info => if info.stddevClamped then "1" else "0") items ++
  ["# HELP anomaly_detector_last_run_timestamp Unix timestamp of last detector run.",
    "# TYPE anomaly_detector_last_run_timestamp gauge",
    s!"anomaly_detector_last_run_timestamp {format 3 now}"]

/-- `emit_metrics`. -/
def emitMetrics (now : F) (zscores : List (String × Info F)) (threshold : F) : String :=
  "\n".intercalate (emitLines format now zscores threshold) ++ "\n"

/-- The flag of one series. -/
def flag (history : List F) (curVal threshold : F) : Except ArithmeticError Nat := do
  let info ← examine sqrt history curVal
  return detected info threshold

end Detector

/-- All samples are the same, as of an empty baseline. -/
def Constant {F : Type} (history : List F) : Prop := ∀ x ∈ history, ∀ y ∈ history, x = y

/-- The population variance. -/
def variance {F : Type} [Field F] (history : List F) : F := spread id history / history.length

/-! ## One series -/

section Series

variable {F : Type} [Field F] [LinearOrder F] [IsStrictOrderedRing F]
variable {history : List F} {c k t : F} (sqrt : F → F)

/-- The variance is positive exactly when the history is not constant. -/
theorem variance_pos_iff : 0 < variance history ↔ ¬ Constant history := by
  have hconstant : spread id history = 0 ↔ Constant history := spread_eq_zero_iff
  have hnonneg : 0 ≤ spread id history := spread_nonneg id history
  by_cases hspread : spread id history = 0
  · have hzero : variance history = 0 := by rw [variance, hspread, zero_div]
    rw [hzero, ← hconstant]
    simp [hspread]
  · have hne : history ≠ [] := by
      intro hnil
      apply hspread
      rw [hnil]
      rfl
    have hlength : (0 : F) < history.length :=
      Nat.cast_pos.mpr (List.length_pos_of_ne_nil hne)
    rw [← hconstant]
    exact ⟨fun _ => hspread, fun _ =>
      div_pos (lt_of_le_of_ne hnonneg (Ne.symm hspread)) hlength⟩

/-- The divisor of the score. -/
def divisor (history : List F) : F := if 0 < variance history then sqrt (variance history) else 1

/-- What the statistics of a history are. -/
theorem computeStats_eq (history : List F) :
    computeStats sqrt history =
      .ok (mean id history, divisor sqrt history, decide (¬ 0 < variance history)) := by
  by_cases hnil : history = []
  · subst hnil
    simp [computeStats, divisor, variance, mean, total]
  · have hlength := length_ne_zero (F := F) hnil
    have hsum : history.sum = total id history := by rw [total, List.map_id]
    have hmean : divide history.sum (history.length : F) = .ok (mean id history) := by
      rw [hsum]
      exact divide_of_ne hlength _
    have hvariance : divide (history.map fun x => (x - mean id history) ^ 2).sum
        (history.length : F) = .ok (variance history) := divide_of_ne hlength _
    simp only [computeStats, if_neg hnil, hmean, ok_bind, hvariance]
    unfold divisor
    by_cases hpos : 0 < variance history
    · rw [if_pos hpos, if_pos hpos, decide_eq_false (not_not.mpr hpos)]
      rfl
    · rw [if_neg hpos, if_neg hpos, decide_eq_true hpos]
      rfl

/-- What is known of the square root. -/
def IsSqrt (sqrt : F → F) : Prop := ∀ v, 0 < v → 0 < sqrt v ∧ sqrt v ^ 2 = v

variable {sqrt} (hsqrt : IsSqrt sqrt)
include hsqrt

/-- The divisor is positive. -/
theorem divisor_pos (history : List F) : 0 < divisor sqrt history := by
  unfold divisor
  by_cases hpos : 0 < variance history
  · rw [if_pos hpos]
    exact (hsqrt _ hpos).1
  · rw [if_neg hpos]
    exact zero_lt_one

omit [IsStrictOrderedRing F] in
/-- The divisor is the root of the variance. -/
theorem divisor_sq (hpos : 0 < variance history) : divisor sqrt history ^ 2 = variance history := by
  rw [divisor, if_pos hpos, (hsqrt _ hpos).2]

/-- No division fails. -/
theorem examine_eq (history : List F) (curVal : F) : examine sqrt history curVal =
    .ok { zscore := (curVal - mean id history) / divisor sqrt history
          mean := mean id history
          stddev := divisor sqrt history
          stddevClamped := decide (¬ 0 < variance history)
          current := curVal } := by
  have hscore := divide_of_ne (divisor_pos hsqrt history).ne' (curVal - mean id history)
  unfold examine
  rw [computeStats_eq]
  change computeZscore curVal (mean id history) (divisor sqrt history) >>= _ = _
  rw [computeZscore, hscore]
  rfl

/-- The flag by the score of the current value. -/
theorem flag_eq (history : List F) (curVal t : F) : flag sqrt history curVal t =
    .ok (if t < |(curVal - mean id history) / divisor sqrt history| then 1 else 0) := by
  rw [flag, examine_eq hsqrt]
  rfl

/-- The test without the root. -/
theorem lt_abs_score_iff (ht : 0 < t) (history : List F) (curVal : F) :
    t < |(curVal - mean id history) / divisor sqrt history| ↔
      t ^ 2 * divisor sqrt history ^ 2 < (curVal - mean id history) ^ 2 := by
  have hpos := divisor_pos hsqrt history
  rw [abs_div, abs_of_pos hpos, lt_div_iff₀ hpos, ← mul_pow, sq_lt_sq,
    abs_of_pos (mul_pos ht hpos)]

/-- The flag without a root: a comparison of squares. -/
theorem flag_of_spread (ht : 0 < t) (hpos : 0 < variance history) (curVal : F) :
    flag sqrt history curVal t =
      .ok (if t ^ 2 * variance history < (curVal - mean id history) ^ 2 then 1 else 0) := by
  rw [flag_eq hsqrt, ← divisor_sq hsqrt hpos]
  simp only [lt_abs_score_iff hsqrt ht]

omit hsqrt [IsStrictOrderedRing F] in
/-- A flag is one exactly when its condition holds. -/
theorem ok_one_iff {P : Prop} [Decidable P] :
    (.ok (if P then 1 else 0) : Except ArithmeticError Nat) = .ok 1 ↔ P := by
  by_cases h : P
  · simp [h]
  · simp [h]

/-- A sample of a constant baseline is its mean. -/
theorem flag_of_constant (ht : 0 < t) (hconstant : Constant history) {x : F}
    (hx : x ∈ history) : flag sqrt history x t = .ok 0 := by
  have hmean : mean id history = x :=
    mean_eq (List.ne_nil_of_mem hx) fun y hy => hconstant y hy x hx
  rw [flag_eq hsqrt, hmean, sub_self, zero_div, abs_zero, if_neg (not_lt.mpr ht.le)]

/-- Few samples are far from the mean of them all. -/
theorem countP_flag_mul_le (ht : 0 < t) (history : List F) :
    (history.countP fun x => flag sqrt history x t = .ok 1) * t ^ 2 ≤ history.length := by
  by_cases hconstant : Constant history
  · have hnone : (history.countP fun x => flag sqrt history x t = .ok 1) = 0 := by
      rw [List.countP_eq_zero]
      intro x hx
      rw [flag_of_constant hsqrt ht hconstant hx]
      decide
    rw [hnone, Nat.cast_zero, zero_mul]
    exact Nat.cast_nonneg _
  · have hpos := variance_pos_iff.mpr hconstant
    have hspread : spread id history ≠ 0 := mt spread_eq_zero_iff.mp hconstant
    have hfar := countP_far_mul_le id history hspread (t ^ 2)
    have hsame : (history.countP fun x => flag sqrt history x t = .ok 1) =
        history.countP fun x => t ^ 2 * (spread id history / history.length) <
          (id x - mean id history) ^ 2 := by
      apply List.countP_congr
      intro x _
      rw [flag_of_spread hsqrt ht hpos, decide_eq_true_eq, decide_eq_true_eq, ok_one_iff]
      rfl
    rw [hsame]
    exact hfar

/-! ## Origin and unit -/

/-- Shifting the history and the value does not change the flag. -/
theorem flag_add (ht : 0 < t) (hpos : 0 < variance history) (curVal c : F) :
    flag sqrt (history.map fun x => x + c) (curVal + c) t = flag sqrt history curVal t := by
  have hne : history ≠ [] := by
    intro hnil
    rw [hnil, variance, List.length_nil, Nat.cast_zero, div_zero] at hpos
    exact lt_irrefl 0 hpos
  have hmean : mean id (history.map fun x => x + c) = mean id history + c := by
    rw [mean_map]
    exact mean_add hne id c
  have hvariance : variance (history.map fun x => x + c) = variance history := by
    rw [variance, spread_map, List.length_map]
    exact congrArg (· / _) (spread_add id history c)
  rw [flag_of_spread hsqrt ht (hvariance ▸ hpos), flag_of_spread hsqrt ht hpos, hmean, hvariance,
    add_sub_add_right_eq_sub]

/-- Scaling the history and the value does not change the flag. -/
theorem flag_mul (ht : 0 < t) (hpos : 0 < variance history) (curVal : F) (hk : k ≠ 0) :
    flag sqrt (history.map fun x => k * x) (k * curVal) t = flag sqrt history curVal t := by
  have hsquare : 0 < k ^ 2 := sq_pos_of_ne_zero hk
  have hmean : mean id (history.map fun x => k * x) = k * mean id history := by
    rw [mean_map]
    exact mean_mul k id history
  have hvariance : variance (history.map fun x => k * x) = k ^ 2 * variance history := by
    rw [variance, spread_map, List.length_map, variance, ← mul_div_assoc]
    exact congrArg (· / _) (spread_mul k id history)
  have hscaled : t ^ 2 * (k ^ 2 * variance history) < (k * curVal - k * mean id history) ^ 2 ↔
      t ^ 2 * variance history < (curVal - mean id history) ^ 2 := by
    rw [← mul_sub, mul_pow, mul_left_comm]
    exact mul_lt_mul_iff_right₀ hsquare
  have hpos' : 0 < variance (history.map fun x => k * x) := by
    rw [hvariance]
    exact mul_pos hsquare hpos
  rw [flag_of_spread hsqrt ht hpos', flag_of_spread hsqrt ht hpos, hmean, hvariance]
  simp only [hscaled]

end Series

/-! ## The report -/

section Report

variable {F : Type} [Field F] [LinearOrder F] {sqrt : F → F} {format : Nat → F → String}
variable {now threshold : F} {baseline : List (String × List F)} {current : List (String × F)}
variable {zscores : List (String × Info F)} {labels : String} {curVal : F}

/-- Every series has been examined. -/
theorem examine_of_run (hrun : run sqrt baseline current = .ok zscores)
    (hmem : (labels, curVal) ∈ current) :
    ∃ info, examine sqrt ((baseline.lookup labels).getD []) curVal = .ok info ∧
      (labels, info) ∈ zscores := by
  unfold run at hrun
  induction current generalizing zscores with
  | nil => cases hmem
  | cons item current ih =>
      rw [List.mapM_cons] at hrun
      cases hexamine : examine sqrt ((baseline.lookup item.1).getD []) item.2 with
      | error e =>
          rw [hexamine] at hrun
          cases hrun
      | ok info =>
          rw [hexamine] at hrun
          cases hrest : current.mapM fun item => do
              let info ← examine sqrt ((baseline.lookup item.1).getD []) item.2
              return (item.1, info) with
          | error e =>
              rw [hrest] at hrun
              cases hrun
          | ok rest =>
              rw [hrest] at hrun
              obtain rfl : (item.1, info) :: rest = zscores := Except.ok.inj hrun
              rcases List.mem_cons.mp hmem with heq | hmem
              · rw [← heq] at hexamine ⊢
                exact ⟨info, hexamine, List.mem_cons_self⟩
              · obtain ⟨info', hinfo', hmem'⟩ := ih hrest hmem
                exact ⟨info', hinfo', List.mem_cons_of_mem _ hmem'⟩

/-- The flag of a series is one of the lines. -/
theorem flag_mem_emitLines (hrun : run sqrt baseline current = .ok zscores)
    (hmem : (labels, curVal) ∈ current) :
    ∃ value, flag sqrt ((baseline.lookup labels).getD []) curVal threshold = .ok value ∧
      s!"anomaly_detected\x7b{labels}\x7d {value}" ∈
        emitLines format now zscores threshold := by
  obtain ⟨info, hinfo, hzscores⟩ := examine_of_run hrun hmem
  have hsorted : (labels, info) ∈ zscores.mergeSort fun a b => decide (a.1 ≤ b.1) :=
    List.mem_mergeSort.mpr hzscores
  have hline : s!"anomaly_detected\x7b{labels}\x7d {detected info threshold}" ∈
      family "anomaly_detected" "1 if Z-score exceeds threshold (anomaly detected)."
        (fun info => toString (detected info threshold))
        (zscores.mergeSort fun a b => decide (a.1 ≤ b.1)) :=
    List.mem_append_right _ (List.mem_map.mpr ⟨_, hsorted, rfl⟩)
  refine ⟨detected info threshold, ?_, ?_⟩
  · rw [flag, hinfo]
    rfl
  · unfold emitLines
    simp only [List.mem_append]
    exact .inl (.inl (.inl (.inl (.inr hline))))

/-- No series can fail. -/
theorem run_eq_ok [IsStrictOrderedRing F] (hsqrt : IsSqrt sqrt)
    (baseline : List (String × List F)) (current : List (String × F)) :
    ∃ zscores, run sqrt baseline current = .ok zscores := by
  unfold run
  induction current with
  | nil => exact ⟨[], rfl⟩
  | cons item current ih =>
      obtain ⟨zscores, hrest⟩ := ih
      have hitem := examine_eq hsqrt ((baseline.lookup item.1).getD []) item.2
      rw [List.mapM_cons, hrest, hitem]
      exact ⟨_, rfl⟩

/-- A line among others is one of the text that they make up. -/
theorem line_of_mem {line : String} {lines : List String} (h : line ∈ lines) :
    ∃ before after, "\n".intercalate lines ++ "\n" = before ++ (line ++ ("\n" ++ after)) := by
  induction lines with
  | nil => cases h
  | cons first rest ih =>
      by_cases hrest : rest = []
      · subst hrest
        obtain rfl := List.mem_singleton.mp h
        exact ⟨"", "", by simp⟩
      · have hstep := String.intercalate_cons_of_ne_nil (s := "\n") (t := first) hrest
        rcases List.mem_cons.mp h with rfl | hmem
        · exact ⟨"", "\n".intercalate rest ++ "\n", by simp [hstep, String.append_assoc]⟩
        · obtain ⟨before, after, heq⟩ := ih hmem
          refine ⟨first ++ ("\n" ++ before), after, ?_⟩
          rw [hstep, String.append_assoc, String.append_assoc, heq]
          simp [String.append_assoc]

/-- **The report.**  The text has the flag of every series which has a present rate, on a line of
its own. -/
theorem run_emits [IsStrictOrderedRing F] (hsqrt : IsSqrt sqrt) (format : Nat → F → String)
    (now threshold : F) (baseline : List (String × List F)) (current : List (String × F)) :
    ∃ zscores, run sqrt baseline current = .ok zscores ∧
      ∀ labels curVal, (labels, curVal) ∈ current →
        ∃ value, flag sqrt ((baseline.lookup labels).getD []) curVal threshold = .ok value ∧
          ∃ before after, emitMetrics format now zscores threshold =
            before ++ (s!"anomaly_detected\x7b{labels}\x7d {value}" ++ ("\n" ++ after)) := by
  obtain ⟨zscores, hrun⟩ := run_eq_ok hsqrt baseline current
  refine ⟨zscores, hrun, fun labels curVal hmem => ?_⟩
  obtain ⟨value, hvalue, hline⟩ := flag_mem_emitLines hrun hmem
  exact ⟨value, hvalue, line_of_mem hline⟩

end Report

/-! ## The real numbers -/

/-- The real root is a root. -/
theorem isSqrt_real : IsSqrt Real.sqrt := fun _ hv => ⟨Real.sqrt_pos.mpr hv, Real.sq_sqrt hv.le⟩

/-- **The flag.**  It is always decided.  For a baseline which is not constant it says that the
square of the deviation is more than the threshold's share of variances, whatever the origin and
the unit; and of the samples themselves it is raised for few. -/
theorem anomaly_laws (history : List ℝ) (curVal t : ℝ) (ht : 0 < t) :
    (∃ value, flag Real.sqrt history curVal t = .ok value) ∧
    (¬ Constant history →
      (flag Real.sqrt history curVal t = .ok 1 ↔
        t ^ 2 * variance history < (curVal - mean id history) ^ 2) ∧
      (∀ c, flag Real.sqrt (history.map fun x => x + c) (curVal + c) t =
        flag Real.sqrt history curVal t) ∧
      ∀ k, k ≠ 0 → flag Real.sqrt (history.map fun x => k * x) (k * curVal) t =
        flag Real.sqrt history curVal t) ∧
    (history.countP fun x => flag Real.sqrt history x t = .ok 1 : ℝ) ≤
      history.length / t ^ 2 := by
  refine ⟨⟨_, flag_eq isSqrt_real history curVal t⟩, fun hconstant => ?_, ?_⟩
  · have hpos := variance_pos_iff.mpr hconstant
    refine ⟨?_, flag_add isSqrt_real ht hpos curVal, fun k hk => ?_⟩
    · rw [flag_of_spread isSqrt_real ht hpos, ok_one_iff]
    · exact flag_mul isSqrt_real ht hpos curVal hk
  · rw [le_div_iff₀ (pow_pos ht 2)]
    exact countP_flag_mul_le isSqrt_real ht history

/-- The default threshold, and a baseline of three samples. -/
theorem anomaly_laws_three :
    (∃ value, flag Real.sqrt [1, 2, 3] 9 3 = .ok value) ∧
    (¬ Constant [(1 : ℝ), 2, 3] →
      (flag Real.sqrt [1, 2, 3] 9 3 = .ok 1 ↔
        3 ^ 2 * variance [(1 : ℝ), 2, 3] < (9 - mean id [(1 : ℝ), 2, 3]) ^ 2) ∧
      (∀ c, flag Real.sqrt ([1, 2, 3].map fun x => x + c) (9 + c) 3 =
        flag Real.sqrt [1, 2, 3] 9 3) ∧
      ∀ k, k ≠ 0 → flag Real.sqrt ([1, 2, 3].map fun x => k * x) (k * 9) 3 =
        flag Real.sqrt [1, 2, 3] 9 3) ∧
    ([(1 : ℝ), 2, 3].countP fun x => flag Real.sqrt [1, 2, 3] x 3 = .ok 1 : ℝ) ≤
      [(1 : ℝ), 2, 3].length / 3 ^ 2 :=
  anomaly_laws [1, 2, 3] 9 3 three_pos

end FaultOracle.Zscore
