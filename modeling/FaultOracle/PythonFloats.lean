import Mathlib.Data.Int.Log
import Mathlib.Data.Rat.Floor
import Mathlib.Data.Rat.Defs
import Mathlib.Tactic.FieldSimp

/-!
# Python floats

A `float` by its value: a finite one is the rational it stands for, next to the
two infinities and NaN.  Comparison and fixed-point formatting are those of Python.
Where a result has to be a double, `toDouble` rounds to it.
-/

namespace PythonFloats

inductive PyFloat
  | fin (q : ℚ)
  | inf (negative : Bool)
  | nan
deriving DecidableEq, Repr

/-- `x > y`; every comparison with NaN is false. -/
def PyFloat.gt : PyFloat → PyFloat → Bool
  | .fin a, .fin b => decide (b < a)
  | .fin _, .inf negative => negative
  | .inf negative, .fin _ => !negative
  | .inf n, .inf m => !n && m
  | .nan, _ => false
  | _, .nan => false

/-- `bool(x)`. -/
def PyFloat.truthy (x : PyFloat) : Bool := decide (x ≠ .fin 0)

/-- Round to an integer, ties to even. -/
def roundHalfEven (q : ℚ) : ℤ :=
  if q - ⌊q⌋ < 1 / 2 then ⌊q⌋
  else if 1 / 2 < q - ⌊q⌋ then ⌊q⌋ + 1
  else if ⌊q⌋ % 2 = 0 then ⌊q⌋ else ⌊q⌋ + 1

/-- `digits` decimal digits of `n`, with leading zeros. -/
def padded (digits n : Nat) : String :=
  String.ofList (List.replicate (digits - (toString n).length) '0') ++ toString n

/-- `format(q, ".<digits>f")` of a finite value. -/
def fixedFinite (digits : Nat) (q : ℚ) : String :=
  let scaled := (roundHalfEven (|q| * 10 ^ digits)).toNat
  let sign := if q < 0 then "-" else ""
  if digits = 0 then sign ++ toString scaled
  else
    sign ++ toString (scaled / 10 ^ digits) ++ "." ++ padded digits (scaled % 10 ^ digits)

/-- `format(x, ".<digits>f")`. -/
def PyFloat.fixed (digits : Nat) : PyFloat → String
  | .fin q => fixedFinite digits q
  | .inf negative => if negative then "-inf" else "inf"
  | .nan => "nan"

/-- `format(q, ".0%")` of a finite value. -/
def percent (q : ℚ) : String := fixedFinite 0 (q * 100) ++ "%"

example : (percent (4 / 5), PyFloat.fixed 3 (.fin (87 / 100))) = ("80%", "0.870") := by
  decide +kernel

/-! ## Doubles -/

/-- The double nearest to a rational, ties to even; an infinity where that is out of
range. -/
def toDouble (q : ℚ) : PyFloat :=
  -- a double has 53 significant bits, the last of them worth at least `2 ^ (-1074)`
  let ulp : ℚ := 2 ^ max (Int.log 2 |q| - 52) (-1074)
  let r := roundHalfEven (q / ulp) * ulp
  if |r| < 2 ^ 1024 then .fin r else .inf (decide (q < 0))

/-- `x * k`, for a finite positive `k`. -/
def PyFloat.mulPos (x : PyFloat) (k : ℚ) : PyFloat :=
  match x with
  | .fin q => toDouble (q * k)
  | .inf negative => .inf negative
  | .nan => .nan

/-- What `int(x)` raises. -/
inductive IntError
  | overflowError
  | valueError
deriving DecidableEq, Repr

/-- `int(x)`: the integer part. -/
def PyFloat.toInt : PyFloat → Except IntError Int
  | .fin q => .ok (if q < 0 then ⌈q⌉ else ⌊q⌋)
  | .inf _ => .error .overflowError
  | .nan => .error .valueError

example : toDouble (1 / 10) = .fin (3602879701896397 / 2 ^ 55) := by decide +kernel

/-! ### Integers -/

theorem roundHalfEven_intCast (n : ℤ) : roundHalfEven (n : ℚ) = n := by
  simp [roundHalfEven]

/-- The exponent of the last place of an integer below `2 ^ 53` is not positive. -/
theorem log_natCast_le {n : Nat} (hn : n < 2 ^ 53) : Int.log 2 |(n : ℚ)| ≤ 52 := by
  rw [Nat.abs_cast, Int.log_natCast]
  have hlog : Nat.log 2 n < 53 := Nat.log_lt_of_lt_pow' (by decide) hn
  omega

/-- **Integers** below `2 ^ 53` are doubles. -/
theorem toDouble_natCast {n : Nat} (hn : n < 2 ^ 53) : toDouble (n : ℚ) = .fin n := by
  have hlog := log_natCast_le hn
  obtain ⟨j, hj⟩ : ∃ j : Nat, max (Int.log 2 |(n : ℚ)| - 52) (-1074) = -(j : ℤ) := by
    obtain ⟨j, hj⟩ := Int.eq_ofNat_of_zero_le (a := -max (Int.log 2 |(n : ℚ)| - 52) (-1074))
      (by omega)
    exact ⟨j, by omega⟩
  have hscaled : (n : ℚ) / 2 ^ (-(j : ℤ)) = ((n * 2 ^ j : ℤ) : ℚ) := by
    rw [zpow_neg, zpow_natCast, div_inv_eq_mul]
    push_cast
    rfl
  have hback : ((n * 2 ^ j : ℤ) : ℚ) * 2 ^ (-(j : ℤ)) = n := by
    rw [zpow_neg, zpow_natCast]
    push_cast
    field_simp
  have hrange : |(n : ℚ)| < 2 ^ 1024 := by
    rw [Nat.abs_cast]
    calc (n : ℚ) < 2 ^ 53 := by exact_mod_cast hn
      _ ≤ 2 ^ 1024 := pow_le_pow_right₀ (by decide) (by decide)
  simp only [toDouble, hj, hscaled, roundHalfEven_intCast, hback, hrange, if_true]

/-! ### Order -/

section Order

variable {a b q : ℚ} {k : ℤ}

theorem sub_half_le_roundHalfEven (q : ℚ) : q - 1 / 2 ≤ roundHalfEven q := by
  have hhigh := Int.lt_floor_add_one q
  unfold roundHalfEven
  split_ifs <;> push_cast <;> linarith

theorem roundHalfEven_le_add_half (q : ℚ) : (roundHalfEven q : ℚ) ≤ q + 1 / 2 := by
  have hlow := Int.floor_le q
  unfold roundHalfEven
  split_ifs <;> push_cast <;> linarith

theorem roundHalfEven_mono (h : a ≤ b) : roundHalfEven a ≤ roundHalfEven b := by
  rcases h.eq_or_lt with rfl | hlt
  · exact le_refl _
  · by_contra hgt
    have hstep : roundHalfEven b + 1 ≤ roundHalfEven a := by omega
    have hstep : (roundHalfEven b : ℚ) + 1 ≤ roundHalfEven a := by exact_mod_cast hstep
    have hb := sub_half_le_roundHalfEven b
    have ha := roundHalfEven_le_add_half a
    linarith

/-- The exponent of the last place of the double next to `q`. -/
def lastPlace (q : ℚ) : ℤ := max (Int.log 2 |q| - 52) (-1074)

/-- `q` as a multiple of its last place. -/
def rounded (q : ℚ) : ℚ := roundHalfEven (q / 2 ^ lastPlace q) * 2 ^ lastPlace q

theorem toDouble_of_lt (h : |rounded q| < 2 ^ 1024) : toDouble q = .fin (rounded q) := if_pos h

/-- A power of two which is not below the last place is a multiple of it. -/
theorem exists_zpow_div (hk : lastPlace q ≤ k) : ∃ n : ℤ, (2 : ℚ) ^ k / 2 ^ lastPlace q = n := by
  obtain ⟨j, hj⟩ := Int.eq_ofNat_of_zero_le (sub_nonneg.mpr hk)
  refine ⟨2 ^ j, ?_⟩
  rw [← zpow_sub₀ (by decide), hj]
  push_cast
  exact zpow_natCast 2 j

/-- Such a power above `q` stays above it. -/
theorem rounded_le_zpow (hq : q ≤ 2 ^ k) (hk : lastPlace q ≤ k) : rounded q ≤ 2 ^ k := by
  obtain ⟨n, hn⟩ := exists_zpow_div hk
  have hplace : (0 : ℚ) < 2 ^ lastPlace q := zpow_pos (by decide) _
  have hround := roundHalfEven_mono (div_le_div_of_nonneg_right hq hplace.le)
  rw [hn, roundHalfEven_intCast] at hround
  rw [rounded, ← le_div_iff₀ hplace, hn]
  exact_mod_cast hround

/-- Such a power below `q` stays below it. -/
theorem zpow_le_rounded (hq : 2 ^ k ≤ q) (hk : lastPlace q ≤ k) : 2 ^ k ≤ rounded q := by
  obtain ⟨n, hn⟩ := exists_zpow_div hk
  have hplace : (0 : ℚ) < 2 ^ lastPlace q := zpow_pos (by decide) _
  have hround := roundHalfEven_mono (div_le_div_of_nonneg_right hq hplace.le)
  rw [hn, roundHalfEven_intCast] at hround
  rw [rounded, ← div_le_iff₀ hplace, hn]
  exact_mod_cast hround

theorem rounded_nonneg (hq : 0 ≤ q) : 0 ≤ rounded q := by
  have hplace : (0 : ℚ) < 2 ^ lastPlace q := zpow_pos (by decide) _
  have hround := roundHalfEven_mono (div_nonneg hq hplace.le)
  rw [show (0 : ℚ) = ((0 : ℤ) : ℚ) from rfl, roundHalfEven_intCast] at hround
  have hround : (0 : ℚ) ≤ roundHalfEven (q / 2 ^ lastPlace q) := by exact_mod_cast hround
  exact mul_nonneg hround hplace.le

/-- **Rounding** keeps the order of numbers which are not negative. -/
theorem rounded_mono (ha : 0 ≤ a) (h : a ≤ b) : rounded a ≤ rounded b := by
  rcases ha.eq_or_lt with rfl | hpos
  · have hzero : rounded 0 = 0 := by
      rw [rounded, zero_div, show (0 : ℚ) = ((0 : ℤ) : ℚ) from rfl, roundHalfEven_intCast]
      simp
    rw [hzero]
    exact rounded_nonneg h
  have hlog : Int.log 2 a ≤ Int.log 2 b := Int.log_mono_right hpos h
  have hla : lastPlace a = max (Int.log 2 a - 52) (-1074) := by rw [lastPlace, abs_of_pos hpos]
  have hlb : lastPlace b = max (Int.log 2 b - 52) (-1074) := by
    rw [lastPlace, abs_of_pos (hpos.trans_le h)]
  by_cases hsame : lastPlace a = lastPlace b
  · have hplace : (0 : ℚ) < 2 ^ lastPlace b := zpow_pos (by decide) _
    rw [rounded, rounded, hsame]
    apply mul_le_mul_of_nonneg_right _ hplace.le
    exact_mod_cast roundHalfEven_mono (div_le_div_of_nonneg_right h hplace.le)
  · -- a power of two lies between them
    have hbelow : a ≤ 2 ^ Int.log 2 b := by
      calc a ≤ 2 ^ (Int.log 2 a + 1) := (Int.lt_zpow_succ_log_self (by decide) a).le
        _ ≤ 2 ^ Int.log 2 b := zpow_le_zpow_right₀ (by decide) (by omega)
    exact (rounded_le_zpow hbelow (by omega)).trans
      (zpow_le_rounded (Int.zpow_log_le_self (by decide) (hpos.trans_le h)) (by omega))

theorem rounded_natCast {n : Nat} (hn : n < 2 ^ 53) : rounded n = n := by
  have hdouble := toDouble_natCast hn
  have hle : rounded (n : ℚ) ≤ 2 ^ (53 : ℤ) := by
    apply rounded_le_zpow
    · exact_mod_cast hn.le
    · have hlog := log_natCast_le hn
      rw [lastPlace]
      omega
  have hrange : |rounded (n : ℚ)| < 2 ^ 1024 := by
    rw [abs_of_nonneg (rounded_nonneg (Nat.cast_nonneg n))]
    refine hle.trans_lt ?_
    rw [← zpow_natCast (2 : ℚ) 1024]
    exact zpow_lt_zpow_right₀ (by decide) (by decide)
  rw [toDouble_of_lt hrange] at hdouble
  exact PyFloat.fin.inj hdouble

end Order

end PythonFloats
