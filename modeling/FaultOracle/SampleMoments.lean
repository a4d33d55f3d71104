import Mathlib.Algebra.BigOperators.Ring.List
import Mathlib.Algebra.Order.BigOperators.Group.List
import Mathlib.Algebra.Order.Field.Basic
import Mathlib.Tactic.Linarith
import Mathlib.Tactic.LinearCombination
import Mathlib.Tactic.Ring

/-!
# Sums over a sample

A sample is a list, and a quantity is a function on its elements with values in an ordered
field.  The spread of a quantity is the sum of its squared deviations from the mean; it can be
had from the sums of the values and of their squares (`length_mul_spread`), and it vanishes just
for a constant quantity (`spread_eq_zero_iff`).

Two facts about more than one sample are here as well: what a shift and a factor do to mean and
spread, and the inequality that bounds how many elements are far from the mean
(`countP_far_mul_le`).
-/

namespace SampleMoments

section Totals

variable {α F : Type*} [Field F] {f g : α → F} {l : List α} {c : F}

/-- The sum of a quantity. -/
def total (f : α → F) (l : List α) : F := (l.map f).sum

@[simp] theorem total_nil (f : α → F) : total f [] = 0 := rfl

/-- The first summand, then the others. -/
@[simp] theorem total_cons (f : α → F) (a : α) (l : List α) :
    total f (a :: l) = f a + total f l := by
  rw [total, List.map_cons, List.sum_cons, total]

/-- The sum of a sum. -/
theorem total_add (f g : α → F) (l : List α) :
    total (fun a => f a + g a) l = total f l + total g l := List.sum_map_add

/-- A factor comes out of the sum. -/
theorem total_mul_left (c : F) (f : α → F) (l : List α) :
    total (fun a => c * f a) l = c * total f l := List.sum_map_mul_left l f c

/-- A constant summed over a list. -/
theorem total_const (c : F) (l : List α) : total (fun _ => c) l = l.length * c := by
  rw [total, List.map_const', List.sum_replicate, nsmul_eq_mul]

/-- The sum of a difference. -/
theorem total_sub (f g : α → F) (l : List α) :
    total (fun a => f a - g a) l = total f l - total g l := by
  have hneg : ∀ a, f a - g a = f a + -1 * g a := fun a => by ring
  simp only [hneg, total_add, total_mul_left]
  ring

/-- Functions which agree on the list have the same sum. -/
theorem total_congr (h : ∀ a ∈ l, f a = g a) : total f l = total g l := by
  rw [total, List.map_congr_left h, total]

/-- Summing over a mapped list. -/
theorem total_map {β : Type*} (f : β → F) (g : α → β) (l : List α) :
    total f (l.map g) = total (fun a => f (g a)) l := by
  rw [total, List.map_map, total]
  rfl

/-- The deviations from any point. -/
theorem total_sq_sub (f : α → F) (l : List α) (c : F) : total (fun a => (f a - c) ^ 2) l =
    total (fun a => f a ^ 2) l - 2 * c * total f l + l.length * c ^ 2 := by
  have hexpand : ∀ a, (f a - c) ^ 2 = f a ^ 2 - 2 * c * f a + c ^ 2 := fun a => by ring
  simp only [hexpand, total_add, total_sub, total_mul_left, total_const]

/-- The arithmetic mean; of an empty sample it is 0. -/
def mean (f : α → F) (l : List α) : F := total f l / l.length

/-- The sum of the squared deviations from the mean. -/
def spread (f : α → F) (l : List α) : F := total (fun a => (f a - mean f l) ^ 2) l

end Totals

section Ordered

variable {α F : Type*} [Field F] [LinearOrder F] [IsStrictOrderedRing F]
variable {f : α → F} {l : List α} {c k : F}

theorem length_ne_zero (hl : l ≠ []) : (l.length : F) ≠ 0 :=
  Nat.cast_ne_zero.mpr (mt List.length_eq_zero_iff.mp hl)

/-- A sum of nonnegative values is nonnegative. -/
theorem total_nonneg (h : ∀ a ∈ l, 0 ≤ f a) : 0 ≤ total f l := by
  induction l with
  | nil => exact le_refl 0
  | cons a l ih =>
      obtain ⟨ha, hl⟩ := List.forall_mem_cons.mp h
      rw [total_cons]
      exact add_nonneg ha (ih hl)

/-- Terms which are not negative cancel nothing. -/
theorem total_eq_zero_iff (h : ∀ a ∈ l, 0 ≤ f a) : total f l = 0 ↔ ∀ a ∈ l, f a = 0 := by
  induction l with
  | nil => simp
  | cons a l ih =>
      obtain ⟨ha, hl⟩ := List.forall_mem_cons.mp h
      rw [total_cons, List.forall_mem_cons, add_eq_zero_iff_of_nonneg ha (total_nonneg hl), ih hl]

theorem length_mul_mean (hl : l ≠ []) (f : α → F) : l.length * mean f l = total f l :=
  mul_div_cancel₀ _ (length_ne_zero hl)

/-- The mean of equal values is their value. -/
theorem mean_eq (hl : l ≠ []) (h : ∀ a ∈ l, f a = c) : mean f l = c := by
  rw [mean, total_congr h, total_const, mul_div_cancel_left₀ _ (length_ne_zero hl)]

/-! ## The spread -/

theorem length_mul_spread (f : α → F) (l : List α) :
    l.length * spread f l = l.length * total (fun a => f a ^ 2) l - total f l ^ 2 := by
  cases l with
  | nil => simp
  | cons a l =>
      have hmean := length_mul_mean (List.cons_ne_nil a l) f
      rw [spread, total_sq_sub]
      linear_combination ((a :: l).length * mean f (a :: l) - total f (a :: l)) * hmean

/-- The spread is nonnegative. -/
theorem spread_nonneg (f : α → F) (l : List α) : 0 ≤ spread f l :=
  total_nonneg fun _ _ => sq_nonneg _

/-- A quantity without spread is constant. -/
theorem spread_eq_zero_iff : spread f l = 0 ↔ ∀ a ∈ l, ∀ b ∈ l, f a = f b := by
  have hmean : spread f l = 0 ↔ ∀ a ∈ l, f a = mean f l := by
    rw [spread, total_eq_zero_iff fun _ _ => sq_nonneg _]
    simp only [sq_eq_zero_iff, sub_eq_zero]
  rw [hmean]
  constructor
  · intro h a ha b hb
    rw [h a ha, h b hb]
  · intro h a ha
    exact (mean_eq (List.ne_nil_of_mem ha) fun b hb => h b hb a ha).symm

/-! ## Shift and factor -/

omit [LinearOrder F] [IsStrictOrderedRing F] in
/-- The mean over a mapped list. -/
theorem mean_map {β : Type*} (f : β → F) (g : α → β) (l : List α) :
    mean f (l.map g) = mean (fun a => f (g a)) l := by
  rw [mean, total_map, List.length_map, mean]

omit [LinearOrder F] [IsStrictOrderedRing F] in
/-- The spread over a mapped list. -/
theorem spread_map {β : Type*} (f : β → F) (g : α → β) (l : List α) :
    spread f (l.map g) = spread (fun a => f (g a)) l := by
  rw [spread, total_map, mean_map, spread]

/-- Shifting the values shifts the mean. -/
theorem mean_add (hl : l ≠ []) (f : α → F) (c : F) :
    mean (fun a => f a + c) l = mean f l + c := by
  rw [mean, total_add, total_const, add_div, mul_div_cancel_left₀ _ (length_ne_zero hl), mean]

omit [LinearOrder F] [IsStrictOrderedRing F] in
/-- Scaling the values scales the mean. -/
theorem mean_mul (c : F) (f : α → F) (l : List α) :
    mean (fun a => c * f a) l = c * mean f l := by
  rw [mean, total_mul_left, mul_div_assoc, mean]

/-- Shifting the values does not change the spread. -/
theorem spread_add (f : α → F) (l : List α) (c : F) :
    spread (fun a => f a + c) l = spread f l := by
  cases l with
  | nil => rfl
  | cons a l =>
      rw [spread, mean_add (List.cons_ne_nil a l)]
      simp only [add_sub_add_right_eq_sub]
      rfl

omit [LinearOrder F] [IsStrictOrderedRing F] in
/-- Scaling the values scales the spread by the square. -/
theorem spread_mul (c : F) (f : α → F) (l : List α) :
    spread (fun a => c * f a) l = c ^ 2 * spread f l := by
  rw [spread, mean_mul, spread, ← total_mul_left]
  apply total_congr
  intro a _
  ring

/-! ## Far elements -/

/-- A bound which many elements exceed is small beside the sum. -/
theorem countP_mul_le (h : ∀ a ∈ l, 0 ≤ f a) (k : F) :
    (l.countP fun a => k < f a) * k ≤ total f l := by
  induction l with
  | nil => simp
  | cons a l ih =>
      obtain ⟨ha, hl⟩ := List.forall_mem_cons.mp h
      have hrest := ih hl
      rw [List.countP_cons, total_cons]
      by_cases hfar : k < f a
      · rw [if_pos (decide_eq_true hfar)]
        push_cast
        linarith
      · rw [if_neg (by simpa using hfar)]
        push_cast
        linarith

/-- **Far elements.**  A multiple of the mean spread is exceeded by a part of the sample that
is the smaller the larger the multiple. -/
theorem countP_far_mul_le (f : α → F) (l : List α) (hspread : spread f l ≠ 0) (t : F) :
    (l.countP fun a => t * (spread f l / l.length) < (f a - mean f l) ^ 2) * t ≤ l.length := by
  cases l with
  | nil => simp
  | cons a l =>
      have hlength := length_ne_zero (F := F) (List.cons_ne_nil a l)
      have hpos : 0 < spread f (a :: l) := lt_of_le_of_ne (spread_nonneg f _) (Ne.symm hspread)
      have hcount := countP_mul_le (f := fun b => (f b - mean f (a :: l)) ^ 2) (l := a :: l)
        (fun _ _ => sq_nonneg _) (t * (spread f (a :: l) / (a :: l).length))
      have hcleared : ((a :: l).countP fun b => t * (spread f (a :: l) / (a :: l).length) <
          (f b - mean f (a :: l)) ^ 2) * t * (spread f (a :: l) / (a :: l).length) ≤
          spread f (a :: l) := by
        rw [mul_assoc]
        exact hcount
      have hpart : spread f (a :: l) / (a :: l).length > 0 :=
        div_pos hpos (Nat.cast_pos.mpr (List.length_pos_of_ne_nil (List.cons_ne_nil a l)))
      have hwhole : spread f (a :: l) =
          (a :: l).length * (spread f (a :: l) / (a :: l).length) :=
        (mul_div_cancel₀ _ hlength).symm
      refine le_of_mul_le_mul_right ?_ hpart
      rw [← hwhole]
      exact hcleared

end Ordered

/-! ## Division -/

/-- What a division may raise. -/
inductive ArithmeticError
  | zeroDivision
deriving DecidableEq, Repr

/-- The division of numbers in a language where a quotient by zero is an error. -/
def divide {F : Type*} [Field F] [DecidableEq F] (a b : F) : Except ArithmeticError F :=
  if b = 0 then .error .zeroDivision else .ok (a / b)

/-- A division by a nonzero number does not raise. -/
theorem divide_of_ne {F : Type*} [Field F] [DecidableEq F] {b : F} (h : b ≠ 0) (a : F) :
    divide a b = .ok (a / b) := if_neg h

theorem ok_bind {α β : Type} (a : α) (f : α → Except ArithmeticError β) :
    ((Except.ok a : Except ArithmeticError α) >>= f) = f a := rfl

end SampleMoments
