import FaultOracle.AbSlots
import FaultOracle.GoFloats

/-!
# Decimal numbers in the shell and in U-Boot

What `toString` writes, bash and U-Boot read again, as long as the number fits.
-/

namespace FaultOracle.Boot

/-- A decimal numeral is that of one number. -/
theorem eq_of_toString {n i : Nat} (h : toString n = toString i) : n = i := by
  have hdigits : Nat.toDigits 10 n = Nat.toDigits 10 i := by
    have hlists := congrArg String.toList h
    rwa [Nat.toString_eq_repr, Nat.toString_eq_repr, Nat.toList_repr, Nat.toList_repr] at hlists
  rw [← Nat.ofDigitChars_ten_toDigits (n := n), hdigits, Nat.ofDigitChars_ten_toDigits]

theorem head_toDigits_ne {n : Nat} (hn : 0 < n) : (Nat.toDigits 10 n).head? ≠ some '0' := by
  induction n using Nat.strongRecOn with
  | ind n ih =>
      by_cases hsmall : n < 10
      · have hdigits : ∀ d < 10, 0 < d → [Nat.digitChar d].head? ≠ some '0' := by decide
        rw [Nat.toDigits_of_lt_base hsmall]
        exact hdigits n hsmall hn
      · rw [Nat.toDigits_of_base_le (by decide) (by omega),
          List.head?_append_of_ne_nil _ (by simp)]
        exact ih (n / 10) (Nat.div_lt_self hn (by decide)) (by omega)

/-- Bash reads a decimal number, as long as it fits. -/
theorem bashInteger_toString {n : Nat} (hn : n < 2 ^ 63) :
    bashInteger (toString n).toList = some (n : Int) := by
  have hvalue := Nat.ofDigitChars_ten_toDigits (n := n)
  rw [Nat.ofDigitChars_eq_foldl] at hvalue
  have hcast : ∀ (ds : List Char) (m : Nat),
      ds.foldl (fun (n : Int) c => n * (10 : Nat) + (c.toNat - '0'.toNat : Nat)) m =
        (ds.foldl (fun n c => 10 * n + (c.toNat - '0'.toNat)) m : Nat) := by
    intro ds
    induction ds with
    | nil => exact fun m => rfl
    | cons c ds ih =>
        intro m
        rw [List.foldl_cons, List.foldl_cons, ← ih]
        congr 1
        push_cast
        omega
  have hfold := hcast (Nat.toDigits 10 n) 0
  rw [hvalue] at hfold
  have hmod : Int.bmod (n : Int) (2 ^ 64) = n := by
    apply Int.bmod_eq_of_le <;> omega
  rw [Nat.toString_eq_repr, Nat.toList_repr, bashInteger.eq_def]
  split
  · next c rest heq =>
      -- a number with two digits does not begin with a zero
      by_cases hn0 : 0 < n
      · exact absurd (congrArg List.head? heq) (head_toDigits_ne hn0)
      · obtain rfl : n = 0 := by omega
        cases heq
  · simp only [Nat.cast_zero] at hfold
    simp only [hfold, hmod]

theorem isDigit_toString (n : Nat) : (toString n).toList.all Char.isDigit = true := by
  rw [Nat.toString_eq_repr, Nat.toList_repr, List.all_eq_true]
  exact GoStrings.isDigit_toDigits n

theorem toString_ne_empty (n : Nat) : toString n ≠ "" := by
  intro h
  have hlist := congrArg String.toList h
  rw [Nat.toString_eq_repr, Nat.toList_repr] at hlist
  exact Nat.toDigits_ne_nil hlist

/-- U-Boot reads a number which fits an unsigned long. -/
theorem parseUlong_toString {n : Nat} (hn : n < 2 ^ 64) : parseUlong (toString n) = n := by
  have hdigits := GoStrings.isDigit_toDigits n
  have htake : (Nat.toDigits 10 n).takeWhile Char.isDigit = Nat.toDigits 10 n :=
    List.takeWhile_eq_self_iff.mpr hdigits
  -- the remainders can be taken at the end
  have hwrapped : ∀ (digits : List Char) (m : Nat),
      digits.foldl (fun n c => (n * 10 + (c.toNat - '0'.toNat)) % 2 ^ 64) (m % 2 ^ 64) =
        digits.foldl (fun n c => 10 * n + (c.toNat - '0'.toNat)) m % 2 ^ 64 := by
    intro digits
    induction digits with
    | nil => exact fun m => rfl
    | cons c digits ih =>
        intro m
        rw [List.foldl_cons, List.foldl_cons, ← ih]
        congr 1
        omega
  have hvalue := Nat.ofDigitChars_ten_toDigits (n := n)
  rw [Nat.ofDigitChars_eq_foldl] at hvalue
  rw [parseUlong, Nat.toString_eq_repr, Nat.toList_repr, htake]
  exact (hwrapped (Nat.toDigits 10 n) 0).trans (by rw [hvalue, Nat.mod_eq_of_lt hn])

end FaultOracle.Boot
