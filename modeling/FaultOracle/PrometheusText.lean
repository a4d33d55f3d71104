import Mathlib.Algebra.Order.BigOperators.Group.List
import Mathlib.Data.List.TakeWhile
import Mathlib.Data.Nat.Digits.Defs

/-!
# The Prometheus text format

A line of the format is blank, a comment behind `#`, or a sample: the name of a metric, labels
in braces, a number and perhaps a timestamp.  A label value stands in quotes, and a backslash,
a quote or a line feed in it is written as an escape.

`parse` reads a text.  `parse_lines` is about texts whose label values need no escape:
their samples are read back.  `weight_le_of_parse` bounds what a reader can find in any text
at all: every backslash, quote and line feed in the label values it returns has taken a backslash
of the text.

The number of a sample is kept as it is written.
-/

namespace PrometheusText

abbrev Text := List Char

/-- A sample, with its number as written. -/
structure Sample where
  name : Text
  labels : List (Text × Text)
  value : Text
deriving DecidableEq, Repr

/-- What a sample is told apart by. -/
def Sample.series (s : Sample) : Text × List (Text × Text) := (s.name, s.labels)

/-! ## Tokens -/

def isBlank (c : Char) : Bool := c == ' ' || c == '\t'

def skipBlanks (s : Text) : Text := s.dropWhile isBlank

/-- The characters of a label name. -/
def isLabelChar (c : Char) : Bool := c.isAlphanum || c == '_'

/-- The characters of a metric name. -/
def isNameChar (c : Char) : Bool := isLabelChar c || c == ':'

/-- A name does not begin with a digit. -/
def isNameOf (p : Char → Bool) (s : Text) : Bool :=
  s.all p && s.head?.any fun c => !c.isDigit

def isMetricName (s : Text) : Bool := isNameOf isNameChar s

def isLabelName (s : Text) : Bool := isNameOf isLabelChar s

def dropSign : Text → Text
  | '+' :: rest => rest
  | '-' :: rest => rest
  | s => s

def isDigits (s : Text) : Bool := !s.isEmpty && s.all Char.isDigit

/-- The exponent behind a mantissa, if there is one. -/
def isExponent : Text → Bool
  | [] => true
  | c :: rest => (c == 'e' || c == 'E') && isDigits (dropSign rest)

/-- A number without its sign: digits, which may have a point between or around them, and an
exponent. -/
def isDecimal (s : Text) : Bool :=
  let mantissa := s.takeWhile fun c => !(c == 'e' || c == 'E')
  let whole := mantissa.takeWhile (· != '.')
  let fraction := (mantissa.drop whole.length).drop 1
  whole.all Char.isDigit && fraction.all Char.isDigit && !(whole ++ fraction).isEmpty &&
    isExponent (s.drop mantissa.length)

/-- A number, an infinity or NaN. -/
def isNumber (s : Text) : Bool :=
  isDecimal (dropSign s) ||
    ["inf".toList, "infinity".toList, "nan".toList].contains ((dropSign s).map Char.toLower)

/-! ## The reader -/

/-- The character `c`, behind blanks. -/
def expect (c : Char) (s : Text) : Option Text :=
  match skipBlanks s with
  | [] => none
  | d :: rest => if d = c then some rest else none

/-- A label value up to its closing quote, with the escapes replaced. -/
def readQuoted : Text → Option (Text × Text)
  | [] => none
  | '"' :: rest => some ([], rest)
  | '\n' :: _ => none
  | '\\' :: '\\' :: rest => (readQuoted rest).map fun r => ('\\' :: r.1, r.2)
  | '\\' :: '"' :: rest => (readQuoted rest).map fun r => ('"' :: r.1, r.2)
  | '\\' :: 'n' :: rest => (readQuoted rest).map fun r => ('\n' :: r.1, r.2)
  | '\\' :: _ => none
  | c :: rest => (readQuoted rest).map fun r => (c :: r.1, r.2)

/-- A label, and what is behind it. -/
def readLabel (s : Text) : Option ((Text × Text) × Text) := do
  let s := skipBlanks s
  let name := s.takeWhile isLabelChar
  if isLabelName name then
    let rest ← expect '=' (s.drop name.length)
    let rest ← expect '"' rest
    let (value, rest) ← readQuoted rest
    return ((name, value), rest)
  else none

/-- The labels up to the closing brace; at most `n` of them. -/
def readLabels : Nat → Text → Option (List (Text × Text) × Text)
  | 0, _ => none
  | n + 1, s =>
      match expect '}' s with
      | some rest => some ([], rest)
      | none => do
          let (label, rest) ← readLabel s
          match expect ',' rest with
          | some rest =>
              let (labels, rest) ← readLabels n rest
              return (label :: labels, rest)
          | none =>
              let rest ← expect '}' rest
              return ([label], rest)

/-- The labels behind a metric name, where there may be none. -/
def readLabelSet (s : Text) : Option (List (Text × Text) × Text) :=
  match expect '{' s with
  | some rest => readLabels (rest.length + 1) rest
  | none => some ([], s)

/-- The line of a sample. -/
def parseSample (line : Text) : Option Sample := do
  let s := skipBlanks line
  let name := s.takeWhile isNameChar
  let (labels, rest) ← readLabelSet (s.drop name.length)
  let rest := skipBlanks rest
  let value := rest.takeWhile fun c => !isBlank c
  let timestamp := skipBlanks (rest.drop value.length)
  if isMetricName name && isNumber value &&
      (timestamp.isEmpty || isDigits (dropSign timestamp)) then
    return ⟨name, labels, value⟩
  else none

/-- A line: nothing where it is blank or a comment. -/
def parseLine (line : Text) : Option (List Sample) :=
  match skipBlanks line with
  | [] => some []
  | c :: _ => if c = '#' then some [] else (parseSample line).map fun s => [s]

/-- The samples of a list of lines. -/
def parseLines : List Text → Option (List Sample)
  | [] => some []
  | line :: rest => do
      let samples ← parseLine line
      let others ← parseLines rest
      return samples ++ others

/-- The samples of a text; one malformed line makes the whole text unreadable. -/
def parse (text : Text) : Option (List Sample) := parseLines (text.splitOn '\n')

example : parse "# TYPE up gauge\nup 1\nx\x7ba=\"\\\\\\\"\",b=\"2\",\x7d 1.5e+3 77\n".toList =
    some [⟨"up".toList, [], "1".toList⟩,
      ⟨"x".toList, [("a".toList, "\\\"".toList), ("b".toList, "2".toList)], "1.5e+3".toList⟩] := by
  decide +kernel

example : parse "x\x7ba=\"\"\"\x7d 1\n".toList = none := by decide +kernel

/-! ## What a reader can find -/

section Weight

variable {s rest text : Text} {c : Char}

/-- Skipping blanks leaves an end of the text. -/
theorem skipBlanks_suffix : skipBlanks s <:+ s := List.dropWhile_suffix _

/-- So does taking a character that is expected. -/
theorem expect_suffix (h : expect c s = some rest) : rest <:+ s := by
  rw [expect] at h
  split at h
  · cases h
  · rename_i d tail hs
    by_cases hd : d = c
    · rw [if_pos hd] at h
      obtain rfl := Option.some.inj h
      exact ((List.suffix_cons d tail).trans (hs ▸ List.suffix_rfl)).trans skipBlanks_suffix
    · rw [if_neg hd] at h
      cases h

/-- What the label value costs in backslashes when it is written. -/
def weight (v : Text) : Nat := 2 * v.count '\\' + v.count '"' + v.count '\n'

def Sample.weight (s : Sample) : Nat := (s.labels.map fun l => PrometheusText.weight l.2).sum

/-- Nothing is escaped in a text without the three characters. -/
theorem weight_eq_zero_iff {v : Text} : weight v = 0 ↔ '\\' ∉ v ∧ '"' ∉ v ∧ '\n' ∉ v := by
  simp only [weight, ← List.count_eq_zero]
  omega

/-- Every escape in a value that is read takes a backslash from the text. -/
theorem weight_readQuoted {v : Text} (h : readQuoted s = some (v, rest)) :
    weight v + rest.count '\\' ≤ s.count '\\' := by
  fun_induction readQuoted s generalizing v with
  | case1 => cases h
  | case2 tail =>
      cases h
      simp [weight]
  | case3 => cases h
  | case4 tail ih | case5 tail ih | case6 tail ih =>
      obtain ⟨⟨v', rest'⟩, hr, heq⟩ := Option.map_eq_some_iff.mp h
      cases heq
      have hle := ih hr
      simp only [weight, List.count_cons] at hle ⊢
      simp
      omega
  | case7 => cases h
  | case8 d tail hquote hline _ _ _ hescape ih =>
      obtain ⟨⟨v', rest'⟩, hr, heq⟩ := Option.map_eq_some_iff.mp h
      cases heq
      have hle := ih hr
      have hcounts : weight (d :: v') = weight v' := by
        rw [weight, weight, List.count_cons_of_ne hescape, List.count_cons_of_ne hquote,
          List.count_cons_of_ne hline]
      rw [hcounts, List.count_cons_of_ne hescape]
      exact hle

/-- So it is with a label. -/
theorem weight_readLabel {label : Text × Text} (h : readLabel s = some (label, rest)) :
    weight label.2 + rest.count '\\' ≤ s.count '\\' := by
  simp only [readLabel] at h
  split at h
  · simp only [Option.bind_eq_bind, Option.bind_eq_some_iff, Option.pure_def,
      Option.some.injEq] at h
    obtain ⟨afterEq, heq, afterQuote, hquote, ⟨value, tail⟩, hvalue, hlabel⟩ := h
    cases hlabel
    have hsuffix : afterQuote <:+ s :=
      ((expect_suffix hquote).trans (expect_suffix heq)).trans
        ((List.drop_suffix _ _).trans skipBlanks_suffix)
    exact (weight_readQuoted hvalue).trans (hsuffix.sublist.count_le _)
  · cases h

/-- With labels one after the other the backslashes add up. -/
theorem weight_readLabels {n : Nat} {labels : List (Text × Text)}
    (h : readLabels n s = some (labels, rest)) :
    (labels.map fun l => weight l.2).sum + rest.count '\\' ≤ s.count '\\' := by
  induction n generalizing s labels with
  | zero => cases h
  | succ n ih =>
      rw [readLabels] at h
      split at h
      · rename_i tail htail
        cases h
        rw [List.map_nil, List.sum_nil, Nat.zero_add]
        exact (expect_suffix htail).sublist.count_le _
      · simp only [Option.bind_eq_bind, Option.bind_eq_some_iff] at h
        obtain ⟨⟨label, afterLabel⟩, hlabel, h⟩ := h
        have hone := weight_readLabel hlabel
        split at h
        · rename_i tail htail
          simp only [Option.pure_def, Option.bind_eq_some_iff, Option.some.injEq] at h
          obtain ⟨⟨others, last⟩, hothers, heq⟩ := h
          obtain ⟨rfl, rfl⟩ := Prod.mk.inj heq
          have hcomma := (expect_suffix htail).sublist.count_le '\\'
          have hrest : (others.map fun l => weight l.2).sum + last.count '\\' ≤ tail.count '\\' :=
            ih hothers
          simp only [List.map_cons, List.sum_cons] at hcomma ⊢
          omega
        · simp only [Option.pure_def, Option.bind_eq_some_iff, Option.some.injEq] at h
          obtain ⟨last, hlast, heq⟩ := h
          cases heq
          have hbrace := (expect_suffix hlast).sublist.count_le '\\'
          simp only [List.map_singleton, List.sum_singleton] at hbrace ⊢
          omega

/-- The values of a label set need no more backslashes than it has. -/
theorem weight_readLabelSet {labels : List (Text × Text)}
    (h : readLabelSet s = some (labels, rest)) :
    (labels.map fun l => weight l.2).sum ≤ s.count '\\' := by
  rw [readLabelSet] at h
  split at h
  · rename_i tail htail
    have hlabels := weight_readLabels h
    have hbrace := (expect_suffix htail).sublist.count_le '\\'
    omega
  · cases h
    exact Nat.zero_le _

/-- Nor does a sample. -/
theorem weight_parseSample {sample : Sample} (h : parseSample s = some sample) :
    sample.weight ≤ s.count '\\' := by
  simp only [parseSample, Option.bind_eq_bind, Option.bind_eq_some_iff] at h
  obtain ⟨⟨labels, tail⟩, hlabels, h⟩ := h
  split at h
  · cases h
    have hsuffix := (List.drop_suffix ((skipBlanks s).takeWhile isNameChar).length _).trans
      (skipBlanks_suffix (s := s))
    exact (weight_readLabelSet hlabels).trans (hsuffix.sublist.count_le _)
  · cases h

/-- Nor a line. -/
theorem weight_parseLine {samples : List Sample} (h : parseLine s = some samples) :
    (samples.map Sample.weight).sum ≤ s.count '\\' := by
  rw [parseLine] at h
  split at h
  · cases h
    exact Nat.zero_le _
  · split at h
    · cases h
      exact Nat.zero_le _
    · obtain ⟨sample, hsample, rfl⟩ := Option.map_eq_some_iff.mp h
      rw [List.map_singleton, List.sum_singleton]
      exact weight_parseSample hsample

/-- Nor all lines together. -/
theorem weight_parseLines {lines : List Text} {samples : List Sample}
    (h : parseLines lines = some samples) :
    (samples.map Sample.weight).sum ≤ (lines.map (List.count '\\')).sum := by
  induction lines generalizing samples with
  | nil =>
      cases h
      exact Nat.zero_le _
  | cons line lines ih =>
      simp only [parseLines, Option.bind_eq_bind, Option.bind_eq_some_iff, Option.pure_def,
        Option.some.injEq] at h
      obtain ⟨first, hfirst, others, hothers, rfl⟩ := h
      rw [List.map_append, List.sum_append, List.map_cons, List.sum_cons]
      exact Nat.add_le_add (weight_parseLine hfirst) (ih hothers)

/-- A split takes only separators away. -/
theorem count_splitOn {sep : Char} (hc : c ≠ sep) (text : Text) :
    ((text.splitOn sep).map (List.count c)).sum = text.count c := by
  induction text with
  | nil => simp
  | cons d text ih =>
      obtain ⟨head, rest, hsplit⟩ := List.exists_cons_of_ne_nil (List.splitOn_ne_nil sep text)
      rw [List.splitOn_cons_eq_if_modifyHead]
      rw [hsplit, List.map_cons, List.sum_cons] at ih
      by_cases hd : d = sep
      · rw [if_pos (beq_iff_eq.mpr hd), hsplit, List.map_cons, List.sum_cons, List.map_cons,
          List.sum_cons, List.count_nil, Nat.zero_add, ih, List.count_cons_of_ne]
        exact fun h => hc (h ▸ hd)
      · rw [if_neg (by simpa using hd), hsplit, List.modifyHead_cons, List.map_cons, List.sum_cons,
          List.count_cons, List.count_cons, ← ih]
        omega

/-- **The cost of escapes.**  Whatever samples a text is read as, it has a backslash for each of
the escapes which their label values need. -/
theorem weight_le_of_parse {samples : List Sample} (h : parse text = some samples) :
    (samples.map Sample.weight).sum ≤ text.count '\\' := by
  have hlines := weight_parseLines h
  rwa [count_splitOn (by decide)] at hlines

end Weight

/-! ## Writing without escapes -/

/-- A label as it is written when its value needs no escape. -/
def labelText (l : Text × Text) : Text := l.1 ++ '=' :: '"' :: l.2 ++ ['"']

/-- Labels in braces; nothing where there are none. -/
def labelsText (labels : List (Text × Text)) : Text :=
  if labels = [] then [] else '{' :: [','].intercalate (labels.map labelText) ++ ['}']

/-- The line of a sample, its label values as they are. -/
def Sample.line (s : Sample) : Text := s.name ++ labelsText s.labels ++ ' ' :: s.value

/-- What a sample needs beside label values without escapes. -/
structure Sample.WellFormed (s : Sample) : Prop where
  name : isMetricName s.name = true
  labels : ∀ l ∈ s.labels, isLabelName l.1 = true
  value : isNumber s.value = true

section Tokens

variable {s a b : Text} {c : Char} {p : Char → Bool}

/-- What fits is taken up to the first character that does not. -/
theorem takeWhile_append_stop (ha : ∀ c ∈ a, p c = true) (hb : b.head?.any p = false) :
    (a ++ b).takeWhile p = a := by
  rw [List.takeWhile_append_of_pos ha]
  cases b with
  | nil => simp
  | cons c b =>
      have hc : p c = false := by simpa using hb
      rw [List.takeWhile_cons_of_neg (by simp [hc]), List.append_nil]

/-- The characters of a number. -/
def isNumberChar (c : Char) : Bool := c.isAlphanum || c == '.' || c == '+' || c == '-'

/-- A sign in front is one of the characters of numbers. -/
theorem isNumberChar_dropSign (h : ∀ c ∈ dropSign s, isNumberChar c = true) :
    ∀ c ∈ s, isNumberChar c = true := by
  unfold dropSign at h
  split at h
  · exact List.forall_mem_cons.mpr ⟨rfl, h⟩
  · exact List.forall_mem_cons.mpr ⟨rfl, h⟩
  · exact h

/-- So is a digit. -/
theorem isNumberChar_of_isDigit (h : c.isDigit = true) : isNumberChar c = true := by
  simp [isNumberChar, Char.isAlphanum, h]

/-- And everything in an exponent. -/
theorem isNumberChar_of_isExponent (h : isExponent s = true) : ∀ c ∈ s, isNumberChar c = true := by
  cases s with
  | nil => simp
  | cons c rest =>
      simp only [isExponent, isDigits, Bool.and_eq_true, Bool.or_eq_true, beq_iff_eq,
        List.all_eq_true] at h
      obtain ⟨hc, _, hrest⟩ := h
      refine List.forall_mem_cons.mpr ⟨?_, isNumberChar_dropSign fun c hc => ?_⟩
      · rcases hc with rfl | rfl <;> rfl
      · exact isNumberChar_of_isDigit (hrest c hc)

/-- Behind the characters which are not the stop stands the stop, and then the rest. -/
theorem mem_drop_one_of_stop {stop : Char}
    (hc : c ∈ s.drop (s.takeWhile (· != stop)).length) (hstop : c ≠ stop) :
    c ∈ (s.drop (s.takeWhile (· != stop)).length).drop 1 := by
  induction s with
  | nil => simp at hc
  | cons d s ih =>
      by_cases hd : d = stop
      · subst hd
        simp only [bne_self_eq_false, Bool.false_eq_true, not_false_eq_true,
          List.takeWhile_cons_of_neg, List.length_nil, List.drop_zero, List.mem_cons] at hc
        simpa using hc.resolve_left hstop
      · have hkeep : (d != stop) = true := bne_iff_ne.mpr hd
        simp only [List.takeWhile_cons, hkeep, if_true, List.length_cons,
          List.drop_succ_cons] at hc ⊢
        exact ih hc

/-- And in a decimal. -/
theorem isNumberChar_of_isDecimal (h : isDecimal s = true) : ∀ c ∈ s, isNumberChar c = true := by
  simp only [isDecimal, Bool.and_eq_true, List.all_eq_true] at h
  obtain ⟨⟨⟨hwhole, hfraction⟩, _⟩, hexponent⟩ := h
  generalize hmantissa : s.takeWhile (fun c => !(c == 'e' || c == 'E')) = mantissa at *
  have hs : s = mantissa ++ s.drop mantissa.length := by
    rw [← hmantissa]
    exact (List.prefix_iff_eq_append.mp (List.takeWhile_prefix _)).symm
  have hparts : mantissa = mantissa.takeWhile (· != '.') ++
      mantissa.drop (mantissa.takeWhile (· != '.')).length :=
    (List.prefix_iff_eq_append.mp (List.takeWhile_prefix _)).symm
  intro c hc
  rw [hs, List.mem_append] at hc
  rcases hc with hc | hc
  · rw [hparts, List.mem_append] at hc
    rcases hc with hc | hc
    · exact isNumberChar_of_isDigit (hwhole c hc)
    · by_cases hpoint : c = '.'
      · subst hpoint
        rfl
      · refine isNumberChar_of_isDigit (hfraction c ?_)
        exact mem_drop_one_of_stop hc hpoint
  · exact isNumberChar_of_isExponent hexponent c hc

/-- A character is a letter or a digit when its lower case is. -/
theorem isAlphanum_of_toLower (h : c.toLower.isAlphanum = true) : c.isAlphanum = true := by
  by_cases hupper : c.isUpper = true
  · change (c.isUpper || c.isLower || c.isDigit) = true
    rw [hupper, Bool.true_or, Bool.true_or]
  · have hsame : c.toLower = c := dif_neg fun hrange => hupper (decide_eq_true hrange)
    rwa [hsame] at h

/-- A number consists of such characters. -/
theorem isNumberChar_of_isNumber (h : isNumber s = true) : ∀ c ∈ s, isNumberChar c = true := by
  rw [isNumber, Bool.or_eq_true] at h
  rcases h with h | h
  · exact isNumberChar_dropSign (isNumberChar_of_isDecimal h)
  · refine isNumberChar_dropSign fun c hc => ?_
    have hlower : c.toLower ∈ (dropSign s).map Char.toLower := List.mem_map_of_mem hc
    have hletter : c.toLower.isAlphanum = true := by
      simp only [List.contains_iff_mem, List.mem_cons, List.not_mem_nil, or_false] at h
      rcases h with h | h | h <;> rw [h] at hlower <;>
        exact List.all_eq_true.mp (by decide) _ hlower
    simp [isNumberChar, isAlphanum_of_toLower hletter]

end Tokens

/-! ## Numbers -/

section Numbers

variable {whole fraction tail s : Text} {c : Char}

/-- A digit is no other character. -/
theorem ne_of_isDigit {d : Char} (hc : c.isDigit = true) (hd : d.isDigit = false) : c ≠ d := by
  intro h
  rw [h, hd] at hc
  cases hc

/-- The digits before an exponent end where it begins. -/
theorem isExponent_stop (h : isExponent tail = true) :
    tail.head?.any (fun c => !(c == 'e' || c == 'E')) = false := by
  cases tail with
  | nil => rfl
  | cons c tail =>
      have hc : (c == 'e' || c == 'E') = true := (Bool.and_eq_true_iff.mp h).1
      rw [List.head?_cons, Option.any_some, hc, Bool.not_true]

/-- Digits are a number, with an exponent or without one. -/
theorem isDecimal_digits (hwhole : isDigits whole = true) (htail : isExponent tail = true) :
    isDecimal (whole ++ tail) = true := by
  obtain ⟨hne, hdigits⟩ := Bool.and_eq_true_iff.mp hwhole
  have hdigit := List.all_eq_true.mp hdigits
  have hmantissa : (whole ++ tail).takeWhile (fun c => !(c == 'e' || c == 'E')) = whole :=
    takeWhile_append_stop (fun c hc => by
      simp [ne_of_isDigit (d := 'e') (hdigit c hc) rfl, ne_of_isDigit (d := 'E') (hdigit c hc) rfl])
      (isExponent_stop htail)
  have hpoint : whole.takeWhile (· != '.') = whole :=
    List.takeWhile_eq_self_iff.mpr fun c hc => by
      simpa using ne_of_isDigit (hdigit c hc) rfl
  simp only [isDecimal, hmantissa, hpoint, List.drop_length, List.drop_nil, List.append_nil,
    List.drop_left, hdigits, htail, List.all_nil, Bool.and_true, Bool.true_and]
  exact hne

/-- Digits around a point are a number, with an exponent or without one. -/
theorem isDecimal_point (hwhole : isDigits whole = true)
    (hfraction : fraction.all Char.isDigit = true) (htail : isExponent tail = true) :
    isDecimal (whole ++ '.' :: fraction ++ tail) = true := by
  obtain ⟨hne, hdigits⟩ := Bool.and_eq_true_iff.mp hwhole
  have hdigit := List.all_eq_true.mp hdigits
  have hnote : ∀ c ∈ whole ++ '.' :: fraction, (!(c == 'e' || c == 'E')) = true := by
    intro c hc
    rcases List.mem_append.mp hc with hc | hc
    · simp [ne_of_isDigit (d := 'e') (hdigit c hc) rfl, ne_of_isDigit (d := 'E') (hdigit c hc) rfl]
    · rcases List.mem_cons.mp hc with rfl | hc
      · rfl
      · have hdigit := List.all_eq_true.mp hfraction c hc
        simp [ne_of_isDigit (d := 'e') hdigit rfl, ne_of_isDigit (d := 'E') hdigit rfl]
  have hmantissa : (whole ++ '.' :: fraction ++ tail).takeWhile
      (fun c => !(c == 'e' || c == 'E')) = whole ++ '.' :: fraction :=
    takeWhile_append_stop hnote (isExponent_stop htail)
  have hpoint : (whole ++ '.' :: fraction).takeWhile (· != '.') = whole :=
    takeWhile_append_stop (fun c hc => by simpa using ne_of_isDigit (hdigit c hc) rfl) rfl
  simp only [isDecimal, hmantissa, hpoint, List.drop_left, List.drop_one, List.tail_cons, hdigits,
    hfraction, htail, Bool.and_true, Bool.true_and]
  cases whole with
  | nil => cases hne
  | cons c whole => rfl

/-- A decimal is a number. -/
theorem isNumber_of_isDecimal (h : isDecimal s = true) : isNumber s = true := by
  have hsign : dropSign s = s := by
    unfold dropSign
    split
    · simp [isDecimal] at h
    · simp [isDecimal] at h
    · rfl
  rw [isNumber, hsign, h, Bool.true_or]

/-- So is one with a minus sign. -/
theorem isNumber_minus (h : isDecimal s = true) : isNumber ('-' :: s) = true := by
  rw [isNumber, dropSign, h, Bool.true_or]

end Numbers

/-! ## Reading back -/

section ReadBack

variable {v rest : Text} {l : Text × Text} {labels : List (Text × Text)} {sample : Sample}

/-- A label value which is written as it is. -/
def Clean (v : Text) : Prop := weight v = 0

instance : DecidablePred Clean := fun v => inferInstanceAs (Decidable (weight v = 0))

/-- A clean value has none of the three characters which need an escape. -/
theorem clean_iff : Clean v ↔ '\\' ∉ v ∧ '"' ∉ v ∧ '\n' ∉ v := weight_eq_zero_iff

/-- A clean value is read as it is written. -/
theorem readQuoted_clean (h : Clean v) : readQuoted (v ++ '"' :: rest) = some (v, rest) := by
  induction v with
  | nil => rfl
  | cons c v ih =>
      obtain ⟨hescape, hquote, hline⟩ := clean_iff.mp h
      have hv : Clean v := clean_iff.mpr
        ⟨fun h => hescape (.tail _ h), fun h => hquote (.tail _ h), fun h => hline (.tail _ h)⟩
      have hc : c ≠ '\\' := fun h => hescape (h ▸ .head _)
      have hq : c ≠ '"' := fun h => hquote (h ▸ .head _)
      have hn : c ≠ '\n' := fun h => hline (h ▸ .head _)
      rw [List.cons_append, readQuoted.eq_8 _ _ hq hn (fun _ h => (hc h).elim)
        (fun _ h => (hc h).elim) (fun _ h => (hc h).elim) hc, ih hv, Option.map_some]

/-- Nothing is skipped where no blank stands. -/
theorem skipBlanks_of_head (h : v.head?.any isBlank = false) : skipBlanks v = v := by
  cases v with
  | nil => rfl
  | cons c v =>
      have hc : ¬ isBlank c = true := by simpa using h
      rw [skipBlanks, List.dropWhile_cons_of_neg hc]

/-- The character that is expected is taken. -/
theorem expect_self {c : Char} (hc : isBlank c = false) : expect c (c :: rest) = some rest := by
  rw [expect, skipBlanks_of_head (by simpa using hc)]
  exact if_pos rfl

/-- Another one is refused. -/
theorem expect_other {c d : Char} (hd : isBlank d = false) (hdc : d ≠ c) :
    expect c (d :: rest) = none := by
  rw [expect, skipBlanks_of_head (by simpa using hd)]
  exact if_neg hdc

/-- A name is all the characters of its kind in front of anything else. -/
theorem takeWhile_name {p : Char → Bool} (h : isNameOf p v = true)
    (hrest : rest.head?.any p = false) : (v ++ rest).takeWhile p = v := by
  rw [isNameOf, Bool.and_eq_true] at h
  exact takeWhile_append_stop (List.all_eq_true.mp h.1) hrest

/-- A name has a first character of its class. -/
theorem exists_cons_of_isNameOf {p : Char → Bool} (h : isNameOf p v = true) :
    ∃ c tail, v = c :: tail ∧ p c = true := by
  cases v with
  | nil => simp [isNameOf] at h
  | cons c tail =>
      simp only [isNameOf, List.all_cons, Bool.and_eq_true] at h
      exact ⟨c, tail, rfl, h.1.1⟩

/-- No character of a name is a blank. -/
theorem isBlank_of_isNameChar {c : Char} (h : isNameChar c = true) : isBlank c = false := by
  by_contra hblank
  simp only [isBlank, Bool.or_eq_true, beq_iff_eq, Bool.not_eq_false] at hblank
  rcases hblank with rfl | rfl <;> exact absurd h (by decide)

/-- What a label name may have a metric name may have too. -/
theorem isNameChar_of_isLabelChar {c : Char} (h : isLabelChar c = true) : isNameChar c = true := by
  rw [isNameChar, h, Bool.true_or]

/-- No blanks are skipped in front of a name. -/
theorem skipBlanks_name {p : Char → Bool} (h : isNameOf p v = true)
    (hp : ∀ c, p c = true → isNameChar c = true) : skipBlanks (v ++ rest) = v ++ rest := by
  obtain ⟨c, tail, rfl, hc⟩ := exists_cons_of_isNameOf h
  exact skipBlanks_of_head (isBlank_of_isNameChar (hp c hc))

/-- A label is read back from what is written for it. -/
theorem readLabel_labelText (hname : isLabelName l.1 = true) (hvalue : Clean l.2) :
    readLabel (labelText l ++ rest) = some (l, rest) := by
  have htext : labelText l ++ rest = l.1 ++ '=' :: '"' :: (l.2 ++ '"' :: rest) := by
    simp [labelText]
  have htake : (l.1 ++ '=' :: '"' :: (l.2 ++ '"' :: rest)).takeWhile isLabelChar = l.1 :=
    takeWhile_name hname rfl
  rw [htext, readLabel]
  simp only [skipBlanks_name hname fun _ => isNameChar_of_isLabelChar, htake, hname, if_true,
    List.drop_left, expect_self (c := '=') rfl, expect_self (c := '"') rfl, Option.bind_eq_bind,
    Option.bind_some, readQuoted_clean hvalue, Option.pure_def]

/-- **Labels are read back.** -/
theorem readLabels_labelsText (hnames : ∀ l ∈ labels, isLabelName l.1 = true)
    (hvalues : ∀ l ∈ labels, Clean l.2) (hne : labels ≠ []) {n : Nat} (hn : labels.length ≤ n) :
    readLabels n ([','].intercalate (labels.map labelText) ++ '}' :: rest) =
      some (labels, rest) := by
  induction labels generalizing n with
  | nil => exact absurd rfl hne
  | cons l labels ih =>
      obtain ⟨n, rfl⟩ : ∃ m, n = m + 1 := ⟨n - 1, by simp at hn; omega⟩
      have hl := hnames l (.head _)
      have hopen : ∀ tail, expect '}' (labelText l ++ tail) = none := by
        intro tail
        obtain ⟨c, name, hc, hchar⟩ := exists_cons_of_isNameOf hl
        rw [labelText, hc]
        refine expect_other (isBlank_of_isNameChar (isNameChar_of_isLabelChar hchar)) ?_
        intro h
        exact absurd (h ▸ hchar) (by decide)
      cases labels with
      | nil =>
          rw [List.map_singleton, List.intercalate_singleton, readLabels, hopen]
          simp [readLabel_labelText hl (hvalues l (.head _)),
            expect_other (c := ',') (d := '}') rfl, expect_self (c := '}') rfl]
      | cons m labels =>
          have hothers := ih (fun k hk => hnames k (.tail _ hk))
            (fun k hk => hvalues k (.tail _ hk)) (List.cons_ne_nil _ _) (Nat.le_of_succ_le_succ hn)
          have htext : [','].intercalate ((l :: m :: labels).map labelText) ++ '}' :: rest =
              labelText l ++
                ',' :: ([','].intercalate ((m :: labels).map labelText) ++ '}' :: rest) := by
            simp [List.intercalate_cons_cons]
          rw [htext, readLabels, hopen]
          simp only [readLabel_labelText hl (hvalues l (.head _)), expect_self (c := ',') rfl,
            hothers, Option.bind_eq_bind, Option.bind_some, Option.pure_def]

/-- A label set is at least as long as it has labels. -/
theorem length_le_intercalate (labels : List (Text × Text)) :
    labels.length ≤ ([','].intercalate (labels.map labelText)).length := by
  induction labels with
  | nil => exact Nat.zero_le _
  | cons l labels ih =>
      cases labels with
      | nil =>
          simp only [List.map_cons, List.map_nil, List.intercalate_singleton, labelText,
            List.length_append, List.length_cons]
          omega
      | cons m labels =>
          rw [List.map_cons, List.map_cons, List.intercalate_cons_cons]
          simp only [List.map_cons, List.length_append, List.length_cons, labelText] at ih ⊢
          omega

/-- No character of a number is a blank. -/
theorem isBlank_of_isNumberChar {c : Char} (h : isNumberChar c = true) : isBlank c = false := by
  by_contra hblank
  simp only [isBlank, Bool.or_eq_true, beq_iff_eq, Bool.not_eq_false] at hblank
  rcases hblank with rfl | rfl <;> exact absurd h (by decide)

/-- A number has a first character. -/
theorem exists_cons_of_isNumber (h : isNumber v = true) :
    ∃ c tail, v = c :: tail ∧ isNumberChar c = true := by
  cases v with
  | nil => exact absurd h (by decide)
  | cons c tail => exact ⟨c, tail, rfl, isNumberChar_of_isNumber h c (.head _)⟩

/-- The labels of a sample are read back in front of its number. -/
theorem readLabelSet_labelsText (hnames : ∀ l ∈ labels, isLabelName l.1 = true)
    (hvalues : ∀ l ∈ labels, Clean l.2) {number : Text} (hnumber : isNumber number = true) :
    readLabelSet (labelsText labels ++ ' ' :: number) = some (labels, ' ' :: number) := by
  by_cases hempty : labels = []
  · obtain ⟨c, tail, rfl, hc⟩ := exists_cons_of_isNumber hnumber
    have hblank : isBlank c = false := isBlank_of_isNumberChar hc
    have hbrace : c ≠ '{' := fun h => absurd (h ▸ hc) (by decide)
    have hnone : expect '{' (' ' :: c :: tail) = none := by
      have hskip : skipBlanks (' ' :: c :: tail) = skipBlanks (c :: tail) := rfl
      rw [expect, hskip]
      exact expect_other hblank hbrace
    rw [labelsText, if_pos hempty, List.nil_append, readLabelSet, hnone, hempty]
  · have htext : labelsText labels ++ ' ' :: number =
        '{' :: ([','].intercalate (labels.map labelText) ++ '}' :: ' ' :: number) := by
      simp [labelsText, hempty]
    rw [htext, readLabelSet, expect_self rfl]
    refine readLabels_labelsText hnames hvalues hempty ?_
    have hlength := length_le_intercalate labels
    simp only [List.length_append]
    omega

/-- **A sample is read back** from its line when no label value needs an escape. -/
theorem parseSample_line (h : sample.WellFormed) (hvalues : ∀ l ∈ sample.labels, Clean l.2) :
    parseSample sample.line = some sample := by
  obtain ⟨c, tail, hvalue, hc⟩ := exists_cons_of_isNumber h.value
  have hstop : (labelsText sample.labels ++ ' ' :: sample.value).head?.any isNameChar = false := by
    rw [labelsText]
    split <;> rfl
  have hname : sample.line.takeWhile isNameChar = sample.name :=
    (congrArg _ (List.append_assoc ..)).trans (takeWhile_name h.name hstop)
  have hskip : skipBlanks sample.line = sample.line :=
    (congrArg _ (List.append_assoc ..)).trans
      ((skipBlanks_name h.name fun _ => id).trans (List.append_assoc ..).symm)
  have hdrop : sample.line.drop sample.name.length =
      labelsText sample.labels ++ ' ' :: sample.value :=
    (congrArg _ (List.append_assoc ..)).trans List.drop_left
  have hblank : skipBlanks (' ' :: sample.value) = sample.value := by
    rw [skipBlanks, List.dropWhile_cons_of_pos rfl, ← skipBlanks,
      skipBlanks_of_head (by rw [hvalue]; simpa using isBlank_of_isNumberChar hc)]
  have htake : sample.value.takeWhile (fun c => !isBlank c) = sample.value :=
    List.takeWhile_eq_self_iff.mpr fun c hc => by
      rw [isBlank_of_isNumberChar (isNumberChar_of_isNumber h.value c hc), Bool.not_false]
  have hlabels := readLabelSet_labelsText h.labels hvalues h.value
  simp only [parseSample, hskip, hname, hdrop, hlabels, Option.bind_eq_bind, Option.bind_some,
    hblank, htake, List.drop_length]
  rw [if_pos (by simp [h.name, h.value, skipBlanks])]
  rfl

/-- The line of a sample is read back as that sample. -/
theorem parseLine_line (h : sample.WellFormed) (hvalues : ∀ l ∈ sample.labels, Clean l.2) :
    parseLine sample.line = some [sample] := by
  obtain ⟨c, tail, hname, hc⟩ := exists_cons_of_isNameOf h.name
  have hline : sample.line = c :: (tail ++ labelsText sample.labels ++ ' ' :: sample.value) := by
    rw [Sample.line, hname]
    rfl
  have hskip : skipBlanks sample.line = sample.line := by
    rw [hline]
    exact skipBlanks_of_head (isBlank_of_isNameChar hc)
  have hcomment : c ≠ '#' := fun h => absurd (h ▸ hc) (by decide)
  rw [parseLine, hskip, hline]
  simp only [if_neg hcomment]
  rw [← hline, parseSample_line h hvalues, Option.map_some]

/-- A comment has no sample. -/
theorem parseLine_comment (text : Text) : parseLine ('#' :: text) = some [] := by
  rw [parseLine, skipBlanks_of_head rfl]
  exact if_pos rfl

/-- What lines say, each by itself. -/
theorem parseLines_eq_some {α : Type*} {lines : List α} {render : α → Text}
    {read : α → List Sample} (h : ∀ a ∈ lines, parseLine (render a) = some (read a)) :
    parseLines (lines.map render) = some (lines.flatMap read) := by
  induction lines with
  | nil => rfl
  | cons a lines ih =>
      rw [List.map_cons, parseLines, h a (.head _), ih fun b hb => h b (.tail _ hb)]
      rfl

/-- An empty line at the end adds nothing. -/
theorem parseLines_concat_nil (lines : List Text) :
    parseLines (lines ++ [[]]) = parseLines lines := by
  induction lines with
  | nil => rfl
  | cons line lines ih => rw [List.cons_append, parseLines, parseLines, ih]

/-- **Reading a text** of lines which each end with a line feed is reading the lines. -/
theorem parse_lines {lines : List Text} (h : ∀ line ∈ lines, '\n' ∉ line) :
    parse (['\n'].intercalate lines ++ ['\n']) = parseLines lines := by
  by_cases hne : lines = []
  · subst hne
    decide
  have htext : ['\n'].intercalate lines ++ ['\n'] = ['\n'].intercalate (lines ++ [[]]) := by
    induction lines with
    | nil => exact absurd rfl hne
    | cons line lines ih =>
        cases lines with
        | nil => simp [List.intercalate_cons_cons]
        | cons next lines =>
            have hih := ih (fun l hl => h l (.tail _ hl)) (List.cons_ne_nil _ _)
            rw [List.intercalate_cons_cons, List.append_assoc, hih]
            simp only [List.cons_append, List.intercalate_cons_cons, List.append_assoc]
  rw [parse, htext, List.splitOn_intercalate]
  · exact parseLines_concat_nil lines
  · intro line hline
    rcases List.mem_append.mp hline with hline | hline
    · exact h line hline
    · obtain rfl := List.mem_singleton.mp hline
      exact List.not_mem_nil
  · exact List.append_ne_nil_of_right_ne_nil _ (List.cons_ne_nil _ _)

end ReadBack

/-! ## Texts of samples and comments -/

/-- A line of a text which is written. -/
inductive Line
  | comment (text : Text)
  | sample (s : Sample)
deriving DecidableEq, Repr

def Line.text : Line → Text
  | .comment text => '#' :: text
  | .sample s => s.line

def Line.samples : Line → List Sample
  | .comment _ => []
  | .sample s => [s]

/-- What is asked of a line beside label values without escapes. -/
def Line.WellFormed : Line → Prop
  | .comment text => '\n' ∉ text ∧ '\\' ∉ text
  | .sample s => s.WellFormed

/-- The lines, each with a line feed at its end. -/
def document (lines : List Line) : Text :=
  ['\n'].intercalate (lines.map Line.text) ++ ['\n']

section Document

variable {lines : List Line} {s : Sample} {c : Char}

/-- The backslashes in the label values of a sample. -/
def Sample.backslashes (s : Sample) : Nat := (s.labels.map fun l => l.2.count '\\').sum

/-- Characters other than the separator are counted text by text. -/
theorem count_intercalate {sep : Char} (hc : c ≠ sep) (texts : List Text) :
    ([sep].intercalate texts).count c = (texts.map (List.count c)).sum := by
  induction texts with
  | nil => rfl
  | cons text texts ih =>
      cases texts with
      | nil => simp
      | cons next texts =>
          rw [List.intercalate_cons_cons, List.map_cons, List.sum_cons, ← ih, List.append_assoc,
            List.count_append, List.singleton_append, List.count_cons_of_ne hc.symm]

/-- A name has only characters of its class. -/
theorem count_of_isNameOf {p : Char → Bool} {v : Text} (h : isNameOf p v = true)
    (hc : p c = false) : v.count c = 0 := by
  rw [isNameOf, Bool.and_eq_true, List.all_eq_true] at h
  exact List.count_eq_zero.mpr fun hmem => absurd (h.1 c hmem) (by simp [hc])

/-- A character which stands neither in names nor in numbers nor between them stands in label
values. -/
theorem count_line (h : s.WellFormed) (hname : isNameChar c = false)
    (hnumber : isNumberChar c = false) (hfixed : c ∉ "\x7b\x7d=,\" ".toList) :
    s.line.count c = (s.labels.map fun l => l.2.count c).sum := by
  have hlabel : isLabelChar c = false := (Bool.or_eq_false_iff.mp hname).1
  have hvalue : s.value.count c = 0 := List.count_eq_zero.mpr fun hmem =>
    absurd (isNumberChar_of_isNumber h.value c hmem) (by simp [hnumber])
  have hne : ∀ d ∈ "\x7b\x7d=,\" ".toList, d ≠ c := fun d hd hdc => hfixed (hdc ▸ hd)
  have hlabels : (labelsText s.labels).count c = (s.labels.map fun l => l.2.count c).sum := by
    by_cases hempty : s.labels = []
    · rw [labelsText, if_pos hempty, hempty]
      rfl
    · have htexts : (s.labels.map labelText).map (List.count c) =
          s.labels.map fun l => l.2.count c := by
        rw [List.map_map]
        refine List.map_congr_left fun l hl => ?_
        rw [Function.comp_apply, labelText, List.count_append, List.count_append,
          count_of_isNameOf (h.labels l hl) hlabel, List.count_cons_of_ne (hne '=' (by decide)),
          List.count_cons_of_ne (hne '"' (by decide)), List.count_cons_of_ne (hne '"' (by decide)),
          List.count_nil]
        omega
      rw [labelsText, if_neg hempty, List.cons_append, List.count_cons_of_ne (hne '{' (by decide)),
        List.count_append, List.count_cons_of_ne (hne '}' (by decide)), List.count_nil,
        count_intercalate (hne ',' (by decide)).symm, htexts, Nat.add_zero]
  rw [Sample.line, List.count_append, List.count_append, count_of_isNameOf h.name hname, hlabels,
    List.count_cons_of_ne (hne ' ' (by decide)), hvalue]
  omega

/-- A clean sample takes one line. -/
theorem not_mem_line (h : s.WellFormed) (hvalues : ∀ l ∈ s.labels, Clean l.2) :
    '\n' ∉ s.line := by
  rw [← List.count_eq_zero, count_line h (by decide) (by decide) (by decide)]
  refine List.sum_eq_zero fun n hn => ?_
  obtain ⟨l, hl, rfl⟩ := List.mem_map.mp hn
  exact List.count_eq_zero.mpr (clean_iff.mp (hvalues l hl)).2.2

/-- **The round trip** of a text whose label values need no escape. -/
theorem parse_document (hwf : ∀ line ∈ lines, line.WellFormed)
    (hvalues : ∀ s ∈ lines.flatMap Line.samples, ∀ l ∈ s.labels, Clean l.2) :
    parse (document lines) = some (lines.flatMap Line.samples) := by
  have hclean : ∀ line ∈ lines, ∀ s ∈ line.samples, ∀ l ∈ s.labels, Clean l.2 :=
    fun line hline s hs => hvalues s (List.mem_flatMap.mpr ⟨line, hline, hs⟩)
  rw [document, parse_lines]
  · refine parseLines_eq_some fun line hline => ?_
    cases line with
    | comment text => exact parseLine_comment text
    | sample s => exact parseLine_line (hwf _ hline) (hclean _ hline s (.head _))
  · intro text htext
    obtain ⟨line, hline, rfl⟩ := List.mem_map.mp htext
    cases line with
    | comment text =>
        exact List.not_mem_cons_of_ne_of_not_mem (by decide) (hwf _ hline).1
    | sample s => exact not_mem_line (hwf _ hline) (hclean _ hline s (.head _))

/-- The backslashes of a line are those of its samples. -/
theorem count_text {line : Line} (h : line.WellFormed) :
    line.text.count '\\' = (line.samples.map Sample.backslashes).sum := by
  cases line with
  | comment text =>
      rw [Line.text, List.count_cons_of_ne (by decide), List.count_eq_zero.mpr h.2]
      rfl
  | sample s =>
      rw [Line.text, count_line h (by decide) (by decide) (by decide)]
      simp [Line.samples, Sample.backslashes]

/-- The backslashes of a document are those of all its samples. -/
theorem count_document (hwf : ∀ line ∈ lines, line.WellFormed) :
    (document lines).count '\\' = ((lines.flatMap Line.samples).map Sample.backslashes).sum := by
  rw [document, List.count_append, count_intercalate (by decide), List.map_map]
  induction lines with
  | nil => rfl
  | cons line lines ih =>
      have hrest := ih fun l hl => hwf l (.tail _ hl)
      rw [List.map_cons, List.sum_cons, List.flatMap_cons, List.map_append, List.sum_append,
        ← hrest, Function.comp_apply, count_text (hwf line (.head _))]
      omega

/-- Sums are in the other order than their terms only if the terms are equal. -/
theorem eq_of_sum_le {α : Type*} {f g : α → Nat} {l : List α} (hle : ∀ a ∈ l, g a ≤ f a)
    (hsum : (l.map f).sum ≤ (l.map g).sum) : ∀ a ∈ l, f a = g a := by
  induction l with
  | nil => exact List.forall_mem_nil _
  | cons a l ih =>
      have hfirst := hle a (.head _)
      have hrest : (l.map g).sum ≤ (l.map f).sum :=
        List.sum_le_sum fun b hb => hle b (.tail _ hb)
      simp only [List.map_cons, List.sum_cons] at hsum
      refine List.forall_mem_cons.mpr ⟨by omega, ih (fun b hb => hle b (.tail _ hb)) (by omega)⟩

/-- Every backslash in a value weighs one. -/
theorem count_le_weight (v : Text) : v.count '\\' ≤ weight v := by
  rw [weight]
  omega

/-- **Where escapes are missing.**  A text in which a reader finds label values that need as many
escapes as those written into it had none which needs an escape. -/
theorem clean_of_parse (hwf : ∀ line ∈ lines, line.WellFormed) {samples : List Sample}
    (hparse : parse (document lines) = some samples)
    (hfound : ((lines.flatMap Line.samples).map Sample.weight).sum ≤
      (samples.map Sample.weight).sum) :
    ∀ s ∈ lines.flatMap Line.samples, ∀ l ∈ s.labels, Clean l.2 := by
  have hbound := hfound.trans (weight_le_of_parse hparse)
  rw [count_document hwf] at hbound
  have hle : ∀ s : Sample, s.backslashes ≤ s.weight := fun s =>
    List.sum_le_sum fun l _ => count_le_weight l.2
  intro s hs l hl
  have hsample : s.weight = s.backslashes := eq_of_sum_le (fun s _ => hle s) hbound s hs
  have hlabel : weight l.2 = l.2.count '\\' :=
    eq_of_sum_le (fun l _ => count_le_weight l.2) hsample.le l hl
  rw [weight] at hlabel
  rw [Clean, weight]
  omega

end Document

end PrometheusText
