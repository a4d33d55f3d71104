import FaultOracle.SampleMoments

/-!
# Least squares

A line through a sample of points is good when the sum of its squared residuals is small.  The
residuals of the best line have the sum 0, and so have their products with the abscissas; that
a line with these two properties is best is `residuals_minimal`.

Slope and intercept are given by the usual formulas, whose denominator vanishes just for points
above one another (`denominator_eq_zero_iff`).
-/

namespace LeastSquares

open SampleMoments

section Line

variable {α F : Type*} [Field F]

/-- The sum of the squared residuals of the line `y = a * x + b`. -/
def residuals (x y : α → F) (a b : F) (l : List α) : F :=
  total (fun p => (y p - (a * x p + b)) ^ 2) l

def denominator (x : α → F) (l : List α) : F :=
  l.length * total (fun p => x p * x p) l - total x l * total x l

def numerator (x y : α → F) (l : List α) : F :=
  l.length * total (fun p => x p * y p) l - total x l * total y l

def lineSlope (x y : α → F) (l : List α) : F := numerator x y l / denominator x l

def lineIntercept (x y : α → F) (l : List α) : F :=
  (total y l - lineSlope x y l * total x l) / l.length

/-- The residuals are in balance, and so are their moments. -/
structure Balanced (x y : α → F) (a b : F) (l : List α) : Prop where
  sum : total (fun p => y p - (a * x p + b)) l = 0
  moment : total (fun p => x p * (y p - (a * x p + b))) l = 0

/-- The residuals of another line are those of the balanced one and the distance between the
lines, which is perpendicular to them. -/
theorem residuals_eq_add {x y : α → F} {a b : F} {l : List α} (h : Balanced x y a b l)
    (a' b' : F) : residuals x y a' b' l =
      residuals x y a b l + total (fun p => ((a - a') * x p + (b - b')) ^ 2) l := by
  have hsplit : ∀ p, (y p - (a' * x p + b')) ^ 2 =
      (y p - (a * x p + b)) ^ 2 + ((a - a') * x p + (b - b')) ^ 2 +
        (2 * (a - a') * (x p * (y p - (a * x p + b))) +
          2 * (b - b') * (y p - (a * x p + b))) := fun p => by ring
  unfold residuals
  simp only [hsplit]
  rw [total_add, total_add, total_add, total_mul_left, total_mul_left, h.sum, h.moment]
  ring

/-- The spread is what is left by the horizontal line through the mean. -/
theorem residuals_mean (x y : α → F) (l : List α) :
    residuals x y 0 (mean y l) l = spread y l := by
  unfold residuals spread
  simp only [zero_mul, zero_add]

theorem lineSlope_map {β : Type*} (x y : β → F) (g : α → β) (l : List α) :
    lineSlope x y (l.map g) = lineSlope (fun p => x (g p)) (fun p => y (g p)) l := by
  unfold lineSlope numerator denominator
  simp only [total_map, List.length_map]

/-- Points which are all raised have a line of the same slope. -/
theorem lineSlope_add (x y : α → F) (l : List α) (c : F) :
    lineSlope x (fun p => y p + c) l = lineSlope x y l := by
  have hproduct : ∀ p, x p * (y p + c) = x p * y p + c * x p := fun p => by ring
  have hnumerator : numerator x (fun p => y p + c) l = numerator x y l := by
    unfold numerator
    simp only [hproduct]
    rw [total_add, total_add, total_mul_left, total_const]
    ring
  rw [lineSlope, hnumerator, lineSlope]

end Line

section Ordered

variable {α F : Type*} [Field F] [LinearOrder F] [IsStrictOrderedRing F]
variable {x y : α → F} {l : List α}

/-- **The best line.** -/
theorem residuals_minimal {a b : F} (h : Balanced x y a b l) (a' b' : F) :
    residuals x y a b l ≤ residuals x y a' b' l := by
  rw [residuals_eq_add h a' b']
  have hdistance : 0 ≤ total (fun p => ((a - a') * x p + (b - b')) ^ 2) l :=
    total_nonneg fun _ _ => sq_nonneg _
  linarith

theorem residuals_nonneg (x y : α → F) (a b : F) (l : List α) : 0 ≤ residuals x y a b l :=
  total_nonneg fun _ _ => sq_nonneg _

theorem denominator_eq (x : α → F) (l : List α) :
    denominator x l = l.length * spread x l := by
  rw [length_mul_spread, denominator, sq]
  simp only [sq]

theorem denominator_eq_zero_iff :
    denominator x l = 0 ↔ ∀ p ∈ l, ∀ q ∈ l, x p = x q := by
  cases l with
  | nil => simp [denominator]
  | cons p l =>
      have hlength := length_ne_zero (F := F) (List.cons_ne_nil p l)
      rw [denominator_eq, mul_eq_zero, or_iff_right hlength, spread_eq_zero_iff]

/-- The formulas solve the normal equations. -/
theorem balanced_line (h : denominator x l ≠ 0) :
    Balanced x y (lineSlope x y l) (lineIntercept x y l) l := by
  have hl : l ≠ [] := by
    intro hnil
    apply h
    rw [hnil]
    simp [denominator]
  have hlength := length_ne_zero (F := F) hl
  have hintercept : l.length * lineIntercept x y l = total y l - lineSlope x y l * total x l :=
    mul_div_cancel₀ _ hlength
  have hslope : lineSlope x y l * denominator x l = numerator x y l := div_mul_cancel₀ _ h
  constructor
  · rw [total_sub, total_add, total_mul_left, total_const]
    linear_combination -hintercept
  · have hexpand : ∀ p, x p * (y p - (lineSlope x y l * x p + lineIntercept x y l)) =
        x p * y p - (lineSlope x y l * (x p * x p) + lineIntercept x y l * x p) := fun p => by ring
    simp only [hexpand]
    rw [total_sub, total_add, total_mul_left, total_mul_left]
    apply mul_left_cancel₀ hlength
    unfold denominator numerator at hslope
    linear_combination -hslope - total x l * hintercept

end Ordered

end LeastSquares
