import Mathlib.Data.List.Basic
import FaultOracle.PythonFloats
import FaultOracle.PrometheusText

/-!
# The texts of Python numbers

`repr` of a float has as few digits as it takes to read the float back, with an exponent
where the point would be far from them.  `str` of an `int` is its decimal digits.  Both are numbers
of the Prometheus text format.
-/

namespace PythonFloats

open PrometheusText

/-- `str(n)`. -/
def natText (n : Nat) : Text := Nat.toDigits 10 n

/-- `str(n)` of any integer. -/
def intText (n : Int) : Text := if n < 0 then '-' :: natText n.natAbs else natText n.natAbs

/-- The decimals of `n` significant digits next to `q`, the nearest one first, as multiples of
a power of ten. -/
def decimals (q : ℚ) (n : Nat) : List (Nat × Int) :=
  let place := Int.log 10 q + 1 - n
  let scaled := q / (10 : ℚ) ^ place
  [roundHalfEven scaled, ⌊scaled⌋, ⌈scaled⌉].map fun m => (m.toNat, place)

/-- The shortest decimal which is read as the double `q`; seventeen digits tell doubles apart. -/
def shortest (q : ℚ) : Nat × Int :=
  let candidates := (List.range' 1 17).flatMap (decimals q)
  (candidates.find? fun c => decide (toDouble (c.1 * (10 : ℚ) ^ c.2) = .fin q)).getD
    (candidates.getLastD (0, 0))

/-- The exponent of a float, with its sign and at least two digits. -/
def exponentText (e : Int) : Text :=
  'e' :: (if e < 0 then '-' else '+') :: (if e.natAbs < 10 then ['0'] else []) ++ natText e.natAbs

/-- Digits with the point behind the first `point` of them. -/
def pointed (digits : Text) (point : Int) : Text :=
  if -4 < point ∧ point ≤ 16 then
    if point ≤ 0 then '0' :: '.' :: List.replicate point.natAbs '0' ++ digits
    else
      digits.take point.toNat ++ List.replicate (point.toNat - digits.length) '0' ++ '.' ::
        (if digits.length ≤ point.toNat then ['0'] else digits.drop point.toNat)
  else
    digits.take 1 ++ (if digits.length ≤ 1 then [] else '.' :: digits.drop 1) ++
      exponentText (point - 1)

/-- `repr(q)` for a positive double. -/
def positiveRepr (q : ℚ) : Text :=
  let (m, place) := shortest q
  let digits := natText m
  pointed ((digits.reverse.dropWhile (· == '0')).reverse) (digits.length + place)

/-- `repr(x)`. -/
def PyFloat.repr : PyFloat → Text
  | .fin q =>
      if q = 0 then "0.0".toList
      else if q < 0 then '-' :: positiveRepr (-q)
      else positiveRepr q
  | .inf negative => if negative then "-inf".toList else "inf".toList
  | .nan => "nan".toList

example : ((PyFloat.fin (1 / 2 ^ 44)).repr, (PyFloat.fin (2 ^ 53)).repr) =
    ("5.684341886080802e-14".toList, "9007199254740992.0".toList) := by decide +kernel

/-! ## Numbers of the text format -/

section

variable {digits : Text} {q : ℚ} {n : Nat}

/-- Digits: at least one, and nothing else. -/
theorem isDigits_iff : isDigits digits = true ↔ digits ≠ [] ∧ ∀ c ∈ digits, c.isDigit = true := by
  rw [isDigits, Bool.and_eq_true, Bool.not_eq_true', List.isEmpty_eq_false_iff,
    List.all_eq_true]

/-- A natural number is written in digits. -/
theorem isDigits_natText (n : Nat) : isDigits (natText n) = true :=
  isDigits_iff.mpr ⟨Nat.toDigits_ne_nil, fun _ hc =>
    Nat.isDigit_of_mem_toDigits (by decide) (by decide) hc⟩

/-- A natural number is a number of the text format. -/
theorem isNumber_natText (n : Nat) : isNumber (natText n) = true := by
  have h : isDecimal (natText n ++ []) = true := isDecimal_digits (isDigits_natText n) rfl
  rw [List.append_nil] at h
  exact isNumber_of_isDecimal h

/-- An exponent is written as one. -/
theorem isExponent_exponentText (e : Int) : isExponent (exponentText e) = true := by
  have hdigits : isDigits ((if e.natAbs < 10 then ['0'] else []) ++ natText e.natAbs) = true := by
    obtain ⟨hne, hdigit⟩ := isDigits_iff.mp (isDigits_natText e.natAbs)
    split
    · exact isDigits_iff.mpr ⟨List.cons_ne_nil _ _, List.forall_mem_cons.mpr ⟨rfl, hdigit⟩⟩
    · exact isDigits_iff.mpr ⟨hne, hdigit⟩
  have hsign : dropSign ((if e < 0 then '-' else '+') ::
      ((if e.natAbs < 10 then ['0'] else []) ++ natText e.natAbs)) =
      (if e.natAbs < 10 then ['0'] else []) ++ natText e.natAbs := by
    split <;> rfl
  rw [exponentText, List.cons_append, List.cons_append, isExponent, hsign, hdigits]
  rfl

/-- Digits with a point are a decimal. -/
theorem isDecimal_pointed (h : isDigits digits = true) (point : Int) :
    isDecimal (pointed digits point) = true := by
  obtain ⟨hne, hdigit⟩ := isDigits_iff.mp h
  have hzeros : ∀ k, ∀ c ∈ List.replicate k '0', c.isDigit = true := fun k c hc => by
    rw [List.eq_of_mem_replicate hc]
    rfl
  have hall : ∀ {part : Text}, (∀ c ∈ part, c.isDigit = true) → part.all Char.isDigit = true :=
    List.all_eq_true.mpr
  rw [pointed]
  split
  · split
    · have hfraction : (List.replicate point.natAbs '0' ++ digits).all Char.isDigit = true := by
        rw [List.all_append, hall (hzeros _), hall hdigit, Bool.and_true]
      have hpoint : isDecimal (['0'] ++ '.' :: (List.replicate point.natAbs '0' ++ digits) ++ []) =
          true := isDecimal_point rfl hfraction rfl
      simpa using hpoint
    · have hwhole : isDigits (digits.take point.toNat ++
          List.replicate (point.toNat - digits.length) '0') = true := by
        refine isDigits_iff.mpr ⟨?_, fun c hc => ?_⟩
        · intro hnil
          rcases List.take_eq_nil_iff.mp (List.append_eq_nil_iff.mp hnil).1 with hzero | hempty
          · omega
          · exact hne hempty
        · rcases List.mem_append.mp hc with hc | hc
          · exact hdigit c (List.mem_of_mem_take hc)
          · exact hzeros _ c hc
      have hfraction : (if digits.length ≤ point.toNat then ['0']
          else digits.drop point.toNat).all Char.isDigit = true := by
        split
        · rfl
        · exact hall fun c hc => hdigit c (List.mem_of_mem_drop hc)
      have hpoint := isDecimal_point hwhole hfraction (rfl : isExponent [] = true)
      rwa [List.append_nil] at hpoint
  · have hone : isDigits (digits.take 1) = true :=
      isDigits_iff.mpr ⟨by simpa using hne, fun c hc => hdigit c (List.mem_of_mem_take hc)⟩
    have hexponent := isExponent_exponentText (point - 1)
    split
    · rw [List.append_nil]
      exact isDecimal_digits hone hexponent
    · exact isDecimal_point hone (hall fun c hc => hdigit c (List.mem_of_mem_drop hc)) hexponent

/-- The digits of a number which is not zero are not all zeros. -/
theorem isDigits_stripped (hn : n ≠ 0) :
    isDigits (((natText n).reverse.dropWhile (· == '0')).reverse) = true := by
  have hsub : ((natText n).reverse.dropWhile (· == '0')).reverse ⊆ natText n := fun c hc =>
    List.mem_reverse.mp ((List.dropWhile_sublist _).subset (List.mem_reverse.mp hc))
  refine isDigits_iff.mpr ⟨fun hnil => hn ?_, fun c hc =>
    (isDigits_iff.mp (isDigits_natText n)).2 c (hsub hc)⟩
  have hzeros : ∀ c ∈ natText n, c = '0' := fun c hc =>
    beq_iff_eq.mp (List.dropWhile_eq_nil_iff.mp (List.reverse_eq_nil_iff.mp hnil) c
      (List.mem_reverse.mpr hc))
  calc n = Nat.ofDigitChars 10 (natText n) 0 := Nat.ofDigitChars_ten_toDigits.symm
    _ = Nat.ofDigitChars 10 (List.replicate (natText n).length '0') 0 := by
        rw [← List.eq_replicate_of_mem hzeros]
    _ = 0 := by rw [Nat.ofDigitChars_replicate_zero, Nat.mul_zero]

/-- The candidates for the digits are positive. -/
theorem one_le_of_mem_decimals (hq : 0 < q) (hn : 1 ≤ n) {c : Nat × Int}
    (hc : c ∈ decimals q n) : 1 ≤ c.1 := by
  simp only [decimals, List.map_cons, List.map_nil] at hc
  generalize hplace : Int.log 10 q + 1 - (n : ℤ) = place at hc
  have hle : place ≤ Int.log 10 q := by omega
  have hpow : (10 : ℚ) ^ place ≤ q :=
    (zpow_le_zpow_right₀ (by norm_num) hle).trans (Int.zpow_log_le_self (by decide) hq)
  have hscaled : 1 ≤ q / (10 : ℚ) ^ place :=
    (one_le_div (zpow_pos (by norm_num) _)).mpr hpow
  have hfloor : 1 ≤ ⌊q / (10 : ℚ) ^ place⌋ := Int.le_floor.mpr (by exact_mod_cast hscaled)
  have hceil := Int.floor_le_ceil (q / (10 : ℚ) ^ place)
  have hround : ⌊q / (10 : ℚ) ^ place⌋ ≤ roundHalfEven (q / (10 : ℚ) ^ place) := by
    rw [roundHalfEven]
    split_ifs <;> omega
  simp only [List.mem_cons, List.not_mem_nil, or_false] at hc
  rcases hc with rfl | rfl | rfl
  · show 1 ≤ (roundHalfEven (q / (10 : ℚ) ^ place)).toNat
    omega
  · show 1 ≤ ⌊q / (10 : ℚ) ^ place⌋.toNat
    omega
  · show 1 ≤ ⌈q / (10 : ℚ) ^ place⌉.toNat
    omega

/-- The shortest digits are positive. -/
theorem one_le_shortest (hq : 0 < q) : 1 ≤ (shortest q).1 := by
  have hall : ∀ c ∈ (List.range' 1 17).flatMap (decimals q), 1 ≤ c.1 := by
    intro c hc
    obtain ⟨n, hn, hmem⟩ := List.mem_flatMap.mp hc
    exact one_le_of_mem_decimals hq (List.mem_range'_1.mp hn).1 hmem
  rw [shortest]
  cases h : ((List.range' 1 17).flatMap (decimals q)).find?
      fun c => decide (toDouble (c.1 * (10 : ℚ) ^ c.2) = .fin q) with
  | some c => exact hall c (List.mem_of_find?_eq_some h)
  | none =>
      have hne : (List.range' 1 17).flatMap (decimals q) ≠ [] := by
        simp [List.range'_succ, decimals]
      rw [Option.getD_none, List.getLastD_eq_getLast?, List.getLast?_eq_some_getLast hne]
      exact hall _ (List.getLast_mem hne)

/-- A float is written as a number. -/
theorem isNumber_repr (x : PyFloat) : isNumber x.repr = true := by
  have hpositive : ∀ {q : ℚ}, 0 < q → isDecimal (positiveRepr q) = true := fun hq =>
    isDecimal_pointed (isDigits_stripped (Nat.one_le_iff_ne_zero.mp (one_le_shortest hq))) _
  cases x with
  | nan => decide
  | inf negative => cases negative <;> decide
  | fin q =>
      rw [PyFloat.repr]
      split
      · decide
      · rename_i hzero
        split
        · rename_i hneg
          exact isNumber_minus (hpositive (neg_pos.mpr hneg))
        · rename_i hneg
          exact isNumber_of_isDecimal
            (hpositive (lt_of_le_of_ne (not_lt.mp hneg) (Ne.symm hzero)))

/-- An integer is written as a number. -/
theorem isNumber_intText (n : Int) : isNumber (intText n) = true := by
  rw [intText]
  split
  · have h : isDecimal (natText n.natAbs ++ []) = true :=
      isDecimal_digits (isDigits_natText n.natAbs) rfl
    rw [List.append_nil] at h
    exact isNumber_minus h
  · exact isNumber_natText _

/-- A natural number's characters are its digits. -/
theorem toList_toString (n : Nat) : (toString n).toList = natText n := by
  rw [Nat.toString_eq_repr, Nat.toList_repr, natText]

/-- A padded number is written in digits. -/
theorem isDigits_padded (places n : Nat) : isDigits (padded places n).toList = true := by
  obtain ⟨hne, hdigit⟩ := isDigits_iff.mp (isDigits_natText n)
  rw [padded, String.toList_append, String.toList_ofList, toList_toString]
  refine isDigits_iff.mpr ⟨List.append_ne_nil_of_right_ne_nil _ hne, fun c hc => ?_⟩
  rcases List.mem_append.mp hc with hc | hc
  · rw [List.eq_of_mem_replicate hc]
    rfl
  · exact hdigit c hc

/-- Fixed-point texts are numbers, too. -/
theorem isNumber_fixed (places : Nat) (hplaces : places ≠ 0) (x : PyFloat) :
    isNumber (x.fixed places).toList = true := by
  cases x with
  | nan => exact (by decide : isNumber "nan".toList = true)
  | inf negative =>
      cases negative with
      | true => exact (by decide : isNumber "-inf".toList = true)
      | false => exact (by decide : isNumber "inf".toList = true)
  | fin q =>
      generalize hscaled : (roundHalfEven (|q| * 10 ^ places)).toNat = scaled
      have hfraction : (padded places (scaled % 10 ^ places)).toList.all Char.isDigit = true :=
        (Bool.and_eq_true_iff.mp (isDigits_padded _ _)).2
      have hdecimal : isDecimal (natText (scaled / 10 ^ places) ++
          '.' :: (padded places (scaled % 10 ^ places)).toList ++ []) = true :=
        isDecimal_point (isDigits_natText _) hfraction rfl
      rw [List.append_nil] at hdecimal
      have htext : (PyFloat.fixed places (.fin q)).toList = (if q < 0 then ['-'] else []) ++
          (natText (scaled / 10 ^ places) ++
            '.' :: (padded places (scaled % 10 ^ places)).toList) := by
        simp only [PyFloat.fixed, fixedFinite, hscaled, if_neg hplaces, String.toList_append,
          toList_toString]
        split <;> simp
      rw [htext]
      split
      · exact isNumber_minus hdecimal
      · exact isNumber_of_isDecimal hdecimal

end

end PythonFloats
