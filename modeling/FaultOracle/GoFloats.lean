import Mathlib.Data.List.TakeWhile
import FaultOracle.GoStrings
import FaultOracle.PythonFloats

/-!
# Go floating-point literals

`strconv.ParseFloat` for 64 bits: decimal and hexadecimal numbers, with underscores between
their digits, and the names of the infinities and NaN.  What it cannot read, or rounds to an
infinity, is an error.

`parseFloat_toDigits`: the decimal digits of an integer below `2 ^ 53` are read as that integer.
-/

namespace GoStrings

open PythonFloats

/-! ## Underscores -/

/-- A digit, which may be hexadecimal. -/
def isDigitOf (hex : Bool) (c : Char) : Bool :=
  c.isDigit || (hex && 'a' ≤ c.toLower && c.toLower ≤ 'f')

/-- The value of such a digit. -/
def digitValue (c : Char) : Nat :=
  if c.isDigit then c.toNat - '0'.toNat else c.toLower.toNat - 'a'.toNat + 10

/-- What `underscoreOK` has seen last. -/
inductive Saw
  | start
  | digit
  | underscore
  | other
deriving DecidableEq

/-- The loop of `underscoreOK`. -/
def underscoresFrom (hex : Bool) : Saw → List Char → Bool
  | saw, [] => saw ≠ .underscore
  | saw, c :: rest =>
      if isDigitOf hex c then underscoresFrom hex .digit rest
      else if c = '_' then saw = .digit && underscoresFrom hex .underscore rest
      else saw ≠ .underscore && underscoresFrom hex .other rest

/-- A text without the sign it begins with. -/
def unsigned : List Char → List Char
  | '+' :: rest => rest
  | '-' :: rest => rest
  | s => s

/-- `underscoreOK`: every underscore stands between digits, or behind a base mark. -/
def underscoreOK (s : List Char) : Bool :=
  match unsigned s with
  | '0' :: c :: rest =>
      if c.toLower = 'x' then underscoresFrom true .digit rest
      else if c.toLower = 'b' ∨ c.toLower = 'o' then underscoresFrom false .digit rest
      else underscoresFrom false .start ('0' :: c :: rest)
  | rest => underscoresFrom false .start rest

/-! ## Numbers -/

/-- `special`: the infinities and NaN. -/
def special (s : List Char) : Option PyFloat :=
  let name := (unsigned s).map Char.toLower
  if name = "inf".toList ∨ name = "infinity".toList then some (.inf (s.head? = some '-'))
  else if s.map Char.toLower = "nan".toList then some .nan
  else none

/-- The mantissa a text begins with, up to a second point, and the rest. -/
def spanMantissa (hex : Bool) (sawdot : Bool) : List Char → List Char × List Char
  | [] => ([], [])
  | c :: rest =>
      if c = '_' ∨ isDigitOf hex c then
        let (mantissa, after) := spanMantissa hex sawdot rest
        (c :: mantissa, after)
      else if c = '.' ∧ !sawdot then
        let (mantissa, after) := spanMantissa hex true rest
        (c :: mantissa, after)
      else ([], c :: rest)

/-- The digits of an exponent; beyond ten thousand no more of them count. -/
def exponentValue (digits : List Char) : Nat :=
  digits.foldl (fun e c => if c ≠ '_' ∧ e < 10000 then 10 * e + (c.toNat - '0'.toNat) else e) 0

/-- The exponent behind a mantissa: none, or a mark with a sign and digits to the end. -/
def readExponent (mark : Char) : List Char → Option Int
  | [] => some 0
  | c :: rest =>
      let digits := unsigned rest
      if c.toLower = mark ∧ (digits.head?.any Char.isDigit) ∧
          digits.all (fun d => d.isDigit || d == '_') then
        some (if rest.head? = some '-' then -(exponentValue digits : Int) else exponentValue digits)
      else none

/-- The number spelled by the digits of a mantissa. -/
def mantissaValue (base : Nat) (digits : List Char) : Nat :=
  digits.foldl (fun n c => base * n + digitValue c) 0

/-- A number begins with `0x`, and is longer. -/
def isHexNumber : List Char → Bool
  | '0' :: c :: _ :: _ => c.toLower = 'x'
  | _ => false

/-- `readFloat`, for a text it reads to its end, and the value nearest to what it reads. -/
def readFloat (s : List Char) : Option PyFloat :=
  let number := unsigned s
  let hex := isHexNumber number
  let (mantissa, rest) := spanMantissa hex false (if hex then number.drop 2 else number)
  let digits := mantissa.filter (isDigitOf hex)
  let fraction := (mantissa.dropWhile (· ≠ '.')).filter (isDigitOf hex)
  match readExponent (if hex then 'p' else 'e') rest with
  | none => none
  | some e =>
      if digits = [] ∨ (hex ∧ rest = []) ∨ ('_' ∈ s ∧ !underscoreOK s) then none
      else
        let scaled : ℚ :=
          if hex then mantissaValue 16 digits * 2 ^ (e - 4 * fraction.length)
          else mantissaValue 10 digits * 10 ^ (e - fraction.length)
        match toDouble (if s.head? = some '-' then -scaled else scaled) with
        | .fin q => some (.fin q)
        | _ => none

/-- `strconv.ParseFloat(s, 64)`. -/
def parseFloat (s : List Char) : Option PyFloat := (special s).or (readFloat s)

example : ["1_0.5e1", "0x_1p-1", "-Inf", "1__0", "0x1", "TOTAL_ERR_COR"].map
    (fun s => parseFloat s.toList) =
      [some (.fin 105), some (.fin (1 / 2)), some (.inf true), none, none, none] := by
  decide +kernel

/-! ## Decimal digits -/

/-- The decimal digits of a number. -/
theorem isDigit_toDigits (n : Nat) : ∀ c ∈ Nat.toDigits 10 n, c.isDigit = true :=
  fun _ hc => Nat.isDigit_of_mem_toDigits (by decide) (by decide) hc

/-- The value of a number's digits is the number. -/
theorem decimalValue_toDigits (n : Nat) : decimalValue (Nat.toDigits 10 n) = n := by
  have hvalue := Nat.ofDigitChars_ten_toDigits (n := n)
  rwa [Nat.ofDigitChars_eq_foldl] at hvalue

/-- A 64-bit number is read back from its digits. -/
theorem parseUint_toDigits {n : Nat} (hn : n < 2 ^ 64) :
    parseUint (Nat.toDigits 10 n) = some n := by
  have hdigits : (Nat.toDigits 10 n).all Char.isDigit = true :=
    List.all_eq_true.mpr (isDigit_toDigits n)
  rw [parseUint, if_pos ⟨Nat.toDigits_ne_nil, hdigits, by rw [decimalValue_toDigits]; exact hn⟩,
    decimalValue_toDigits]

/-- A digit is none of the other characters of a number. -/
theorem ne_of_isDigit {c d : Char} (hc : c.isDigit = true) (hd : d.isDigit = false) : c ≠ d := by
  rintro rfl
  rw [hc] at hd
  cases hd

/-- Digits have no sign to drop. -/
theorem unsigned_of_digits {s : List Char} (hs : ∀ c ∈ s, c.isDigit = true) : unsigned s = s := by
  unfold unsigned
  split
  · exact absurd rfl (ne_of_isDigit (hs '+' List.mem_cons_self) (by decide))
  · exact absurd rfl (ne_of_isDigit (hs '-' List.mem_cons_self) (by decide))
  · rfl

/-- A digit has no case. -/
theorem toLower_of_isDigit {c : Char} (hc : c.isDigit = true) : c.toLower = c := by
  have hrange : c.toNat ≤ 57 := by
    simp only [Char.isDigit, Bool.and_eq_true, decide_eq_true_eq, UInt32.le_iff_toNat_le] at hc
    exact hc.2
  have hlower : ¬ (c.val ≥ 'A'.val ∧ c.val ≤ 'Z'.val) := by
    intro h
    have hupper : 65 ≤ c.toNat := UInt32.le_iff_toNat_le.mp h.1
    omega
  exact dif_neg hlower

/-- Digits have no case. -/
theorem map_toLower_of_digits {s : List Char} (hs : ∀ c ∈ s, c.isDigit = true) :
    s.map Char.toLower = s :=
  (List.map_congr_left fun c hc => toLower_of_isDigit (hs c hc)).trans (List.map_id s)

/-- Digits are no name of an infinity or a NaN. -/
theorem special_of_digits {s : List Char} (hs : ∀ c ∈ s, c.isDigit = true) : special s = none := by
  have hletter : ∀ c w, c ∈ w → c.isDigit = false → s ≠ w := by
    rintro c w hc hletter rfl
    rw [hs c hc] at hletter
    cases hletter
  rw [special, unsigned_of_digits hs, map_toLower_of_digits hs, if_neg, if_neg]
  · exact hletter 'n' _ (by decide) (by decide)
  · exact not_or.mpr ⟨hletter 'i' _ (by decide) (by decide),
      hletter 'i' _ (by decide) (by decide)⟩

/-- Digits are all mantissa. -/
theorem spanMantissa_of_digits {s : List Char} (hs : ∀ c ∈ s, c.isDigit = true) :
    spanMantissa false false s = (s, []) := by
  induction s with
  | nil => rfl
  | cons c s ih =>
      have hc : isDigitOf false c = true := by simp [isDigitOf, hs c List.mem_cons_self]
      simp [spanMantissa, hc, ih fun d hd => hs d (List.mem_cons_of_mem _ hd)]

/-- The mantissa's value is that of the digits. -/
theorem mantissaValue_of_digits {s : List Char} (hs : ∀ c ∈ s, c.isDigit = true) :
    mantissaValue 10 s = decimalValue s := by
  apply List.foldl_ext
  intro n c hc
  rw [digitValue, if_pos (hs c hc)]

/-- Digits are no hexadecimal number. -/
theorem isHexNumber_of_digits {s : List Char} (hs : ∀ c ∈ s, c.isDigit = true) :
    isHexNumber s = false := by
  unfold isHexNumber
  split
  · rename_i c _ _
    have hc : c.isDigit = true := hs c (by simp)
    rw [toLower_of_isDigit hc, decide_eq_false_iff_not]
    exact ne_of_isDigit hc (by decide)
  · rfl

/-- Digits of a small number are read exactly. -/
theorem readFloat_of_digits {s : List Char} (hs : ∀ c ∈ s, c.isDigit = true) (hne : s ≠ [])
    (hsmall : decimalValue s < 2 ^ 53) : readFloat s = some (.fin (decimalValue s)) := by
  have hletter : ∀ c, c.isDigit = false → c ∉ s := by
    intro c hc hmem
    rw [hs c hmem] at hc
    cases hc
  have hall : s.filter (isDigitOf false) = s :=
    List.filter_eq_self.mpr fun c hc => by simp [isDigitOf, hs c hc]
  have hfraction : s.dropWhile (fun c => !decide (c = '.')) = [] := by
    rw [List.dropWhile_eq_nil_iff]
    intro c hc
    simpa using ne_of_isDigit (hs c hc) (d := '.') (by decide)
  have hsign : s.head? ≠ some '-' :=
    fun h => hletter '-' (by decide) (List.mem_of_mem_head? h)
  have hexponent : readExponent 'e' [] = some 0 := rfl
  simp [readFloat, unsigned_of_digits hs, isHexNumber_of_digits hs, spanMantissa_of_digits hs,
    hexponent, hall, hfraction, hne, hletter '_' (by decide), hsign, mantissaValue_of_digits hs,
    toDouble_natCast hsmall]

/-- **Counts** below `2 ^ 53` are read as they are written. -/
theorem parseFloat_toDigits {n : Nat} (hn : n < 2 ^ 53) :
    parseFloat (Nat.toDigits 10 n) = some (.fin n) := by
  have hread := readFloat_of_digits (isDigit_toDigits n) Nat.toDigits_ne_nil
    (by rw [decimalValue_toDigits]; exact hn)
  rw [parseFloat, special_of_digits (isDigit_toDigits n), hread, decimalValue_toDigits]
  rfl

end GoStrings
