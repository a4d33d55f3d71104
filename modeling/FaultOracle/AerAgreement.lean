import FaultOracle.AerReaders

/-!
# When the readers of an AER file agree

Each of the three readers is taken on its own, line by line: what the collector emits, what
the words of the lines make when they are paired, and what the last words add up to.

`counts_agree_iff` puts the three together.
-/

namespace FaultOracle.Aer

open GoStrings InsertionDict PythonFloats
open FaultOracle.Exporter (Text parseAERFile float64 aerLine)
open FaultOracle.Remediation (isPySpace)
open FaultOracle.Trace (CharTables maxStrDigits)

/-! ## Words of the lines -/

/-- What is no white space for Python is none for Go. -/
theorem isSpace_eq_false {c : Char} (h : isPySpace c = false) : isSpace c = false := by
  simp only [isPySpace, isSpace, Bool.or_eq_false_iff, Bool.and_eq_false_iff,
    List.contains_eq_mem, decide_eq_false_iff_not, List.mem_cons, List.not_mem_nil, or_false,
    not_or] at h ⊢
  omega

/-- A digit is no white space. -/
theorem isPySpace_of_isDigit {c : Char} (h : c.isDigit = true) : isPySpace c = false :=
  Trace.asciiTables.isPySpace_of_isDigit c h

/-- A line with a name and a count has these two words. -/
theorem wordsBy_countLine {p : Char → Bool} {name : Text} (hne : name ≠ [])
    (hname : ∀ c ∈ name, p c = false) (hspace : p ' ' = true)
    (hdigit : ∀ c : Char, c.isDigit = true → p c = false) (count : Nat) :
    wordsBy p (countLine name count) = [name, Nat.toDigits 10 count] := by
  rw [countLine, wordsBy_append_cons hspace, wordsBy_of_dark hne hname,
    wordsBy_of_dark Nat.toDigits_ne_nil fun c hc => hdigit c (isDigit_toDigits count c hc)]
  rfl

/-- Go reads a count line as its two words. -/
theorem fields_countLine {name : Text} (hne : name ≠ []) (hname : ∀ c ∈ name, isPySpace c = false)
    (count : Nat) : fields (countLine name count) = [name, Nat.toDigits 10 count] :=
  wordsBy_countLine hne (fun c hc => isSpace_eq_false (hname c hc)) (by decide)
    (fun _ hc => isSpace_eq_false (isPySpace_of_isDigit hc)) count

/-- So does Python. -/
theorem words_countLine {name : Text} (hne : name ≠ []) (hname : ∀ c ∈ name, isPySpace c = false)
    (count : Nat) : words (countLine name count) = [name, Nat.toDigits 10 count] :=
  wordsBy_countLine hne hname (by decide) (fun _ hc => isPySpace_of_isDigit hc) count

/-- The name of the total is not empty. -/
theorem Kind.totalName_ne (kind : Kind) : kind.totalName ≠ [] := by cases kind <;> decide

/-- It has no white space. -/
theorem Kind.totalName_dark (kind : Kind) : ∀ c ∈ kind.totalName, isPySpace c = false := by
  have hall : kind.totalName.all (fun c => !isPySpace c) = true := by cases kind <;> decide
  intro c hc
  simpa using List.all_eq_true.mp hall c hc

/-- A count line is one line. -/
theorem newline_notMem_countLine {name : Text} (hname : ∀ c ∈ name, isPySpace c = false)
    (count : Nat) : '\n' ∉ countLine name count := by
  have hnewline : isPySpace '\n' = true := by decide
  rw [countLine, List.mem_append, List.mem_cons, not_or, not_or]
  refine ⟨fun h => ?_, by decide, fun h => ?_⟩
  · rw [hname _ h] at hnewline
    cases hnewline
  · rw [isPySpace_of_isDigit (isDigit_toDigits count _ h)] at hnewline
    cases hnewline

/-- So is every item. -/
theorem Item.newline_notMem (item : Item) : '\n' ∉ item.line := by
  cases item with
  | entry e => exact newline_notMem_countLine e.name_dark e.count
  | malformed line plain hline => exact plain

/-- And every line of the file. -/
theorem Contents.newline_notMem (f : Contents) : ∀ line ∈ f.lines, '\n' ∉ line := by
  intro line hline
  rcases List.mem_append.mp hline with h | h
  · obtain ⟨item, _, rfl⟩ := List.mem_map.mp h
    exact item.newline_notMem
  · rw [List.mem_singleton.mp h]
    exact newline_notMem_countLine f.kind.totalName_dark f.total

/-! ## The collector -/

/-- What the exporter skips begins like a total. -/
theorem total_isPrefix_skipped (kind : Kind) : "TOTAL_ERR".toList <+: kind.skipped.toList := by
  cases kind <;> decide

/-- So does the total of each kind. -/
theorem total_isPrefix_totalName (kind : Kind) : "TOTAL_ERR".toList <+: kind.totalName := by
  cases kind <;> decide

/-- The collector passes a line with a name and a count. -/
theorem aerLine_countLine {name : Text} (hne : name ≠ [])
    (hname : ∀ c ∈ name, isPySpace c = false) {count : Nat} (hcount : count < 2 ^ 64)
    (result : List (Text × Nat)) :
    aerLine result (dropCR (countLine name count)) = setItem name count result := by
  rw [aerLine, fields_trimSpace, fields_dropCR, fields_countLine hne hname]
  simp only [parseUint_toDigits hcount]

/-- It skips a malformed line. -/
theorem aerLine_malformed {line : Text} (hline : Malformed line) (result : List (Text × Nat)) :
    aerLine result (dropCR line) = result := by
  rw [aerLine, fields_trimSpace, fields_dropCR]
  split
  · rename_i name countText hfields
    have hletters := hline name countText hfields
    have hnone : parseUint countText = none := by
      rw [parseUint, if_neg]
      intro h
      rw [hletters] at h
      exact absurd h.2.1 (by decide)
    simp only [hnone]
  · rfl

/-- The counts of the types of errors. -/
def countItems (items : List Item) : List (Text × Nat) :=
  (entries items).map fun e => (e.name, e.count)

/-- The exporter takes the lines in order, with no type twice. -/
theorem foldl_aerLine (items : List Item) (result : List (Text × Nat))
    (hdistinct : (result.map Prod.fst ++ (entries items).map Entry.name).Nodup) :
    ((items.map Item.line).map dropCR).foldl aerLine result = result ++ countItems items := by
  induction items generalizing result with
  | nil => simp [countItems, entries]
  | cons item items ih =>
      rw [List.map_cons, List.map_cons, List.foldl_cons]
      cases item with
      | entry e =>
          have hentries : entries (.entry e :: items) = e :: entries items := rfl
          rw [hentries, List.map_cons] at hdistinct
          have hnew : e.name ∉ result.map Prod.fst := fun hmem =>
            (List.nodup_append.mp hdistinct).2.2 _ hmem _ List.mem_cons_self rfl
          have hcount : e.count < 2 ^ 64 := lt_trans e.count_lt (by decide)
          rw [Item.line, aerLine_countLine e.name_ne e.name_dark hcount, setItem_of_not_mem hnew,
            ih, countItems, countItems, hentries, List.map_cons, List.append_assoc]
          · rfl
          · simpa using hdistinct
      | malformed line plain hline =>
          have hentries : entries (.malformed line plain hline :: items) = entries items := rfl
          rw [hentries] at hdistinct
          rw [Item.line, aerLine_malformed hline, ih result hdistinct]
          rfl

/-- A line of the file does not fit into the buffer of the scanner. -/
def Contents.Overlong (f : Contents) : Prop := ∃ line ∈ f.lines, fitsBuffer line = false

/-- The scanner gives up exactly where a line is too long for it. -/
theorem scan_tooLong_iff (f : Contents) : (scanLines f.text).tooLong = true ↔ f.Overlong := by
  rw [scanLines, Contents.text, rawLines_flatMap f.newline_notMem]
  simp [Contents.Overlong]

/-- Otherwise it hands out all lines. -/
theorem scan_lines (f : Contents) (h : ¬ f.Overlong) :
    (scanLines f.text).lines = f.lines.map dropCR := by
  rw [scanLines, Contents.text, rawLines_flatMap f.newline_notMem]
  have hall : f.lines.takeWhile fitsBuffer = f.lines := by
    rw [List.takeWhile_eq_self_iff]
    intro line hline
    by_contra hfits
    exact h ⟨line, hline, by simpa using hfits⟩
  rw [hall]

/-- The total is not among the types. -/
theorem totalName_notMem (f : Contents) : f.kind.totalName ∉ (countItems f.items).map Prod.fst := by
  intro hmem
  obtain ⟨item, hitem, hname⟩ := List.mem_map.mp hmem
  obtain ⟨e, _, rfl⟩ := List.mem_map.mp hitem
  have hsame : e.name = f.kind.totalName := hname
  exact e.name_free (by rw [hsame]; exact total_isPrefix_totalName f.kind)

/-- What the collector parses: the counts and the total. -/
theorem parseAERFile_text (f : Contents) (h : ¬ f.Overlong) :
    parseAERFile f.text = some (countItems f.items ++ [(f.kind.totalName, f.total)]) := by
  have hscan : (scanLines f.text).tooLong = false := by
    rw [← Bool.not_eq_true, scan_tooLong_iff]
    exact h
  rw [parseAERFile, hscan, scan_lines f h, Contents.lines, List.map_append, List.foldl_append,
    foldl_aerLine f.items [] (by simpa using f.distinct), List.nil_append]
  simp only [List.map_cons, List.map_nil, List.foldl_cons, List.foldl_nil]
  rw [aerLine_countLine f.kind.totalName_ne f.kind.totalName_dark f.total_lt,
    setItem_of_not_mem (totalName_notMem f)]
  rfl

/-- Sums of parts add up. -/
theorem floatSum_append (as bs : List PyFloat) :
    floatSum (as ++ bs) = (floatSum as).bind fun a => (floatSum bs).map (a + ·) := by
  induction as with
  | nil =>
      rw [List.nil_append, floatSum, Option.bind_some]
      simp
  | cons x as ih =>
      cases x with
      | fin q =>
          rw [List.cons_append, floatSum, ih, floatSum]
          cases floatSum as <;> cases floatSum bs <;> simp [add_assoc]
      | inf negative => rfl
      | nan => rfl

/-- Counts are added up exactly. -/
theorem floatSum_counts (items : List Item) :
    floatSum ((countItems items).map fun item => float64 item.2) =
      some (((entries items).map Entry.count).sum : ℚ) := by
  rw [countItems]
  generalize entries items = es
  induction es with
  | nil => simp [floatSum]
  | cons e es ih =>
      rw [List.map_cons, List.map_cons, float64, toDouble_natCast e.count_lt, floatSum, ih]
      simp

/-- A file with an overlong line gives the exporter nothing. -/
theorem collected_of_overlong (f : Contents) (h : f.Overlong) : collected f.kind f.text = [] := by
  rw [collected, parseAERFile, (scan_tooLong_iff f).mpr h]
  rfl

/-- No type of error is skipped. -/
theorem filter_skipped (f : Contents) :
    (countItems f.items).filter (fun item => item.1 ≠ f.kind.skipped.toList) =
      countItems f.items := by
  rw [List.filter_eq_self]
  intro item hitem
  obtain ⟨e, _, rfl⟩ := List.mem_map.mp hitem
  have hne : e.name ≠ f.kind.skipped.toList := fun hname =>
    e.name_free (by rw [hname]; exact total_isPrefix_skipped f.kind)
  simpa using hne

/-- **The collector** finds the sum and no other type of error, exactly when the file holds the
correctable errors; it finds nothing where a line does not fit into its buffer. -/
theorem collected_iff (f : Contents) :
    (floatSum ((collected f.kind f.text).map Prod.snd) = some (f.sum : ℚ) ∧
        ∀ item ∈ collected f.kind f.text, item.1 ≠ f.kind.totalName) ↔
      (f.Overlong ∧ f.sum = 0) ∨ (¬ f.Overlong ∧ f.kind = .correctable) := by
  by_cases hlong : f.Overlong
  · rw [collected_of_overlong f hlong]
    have hzero : (some (0 : ℚ) = some (f.sum : ℚ)) ↔ f.sum = 0 := by
      rw [Option.some.injEq, eq_comm, Nat.cast_eq_zero]
    simp [floatSum, hlong, hzero]
  · rw [collected, parseAERFile_text f hlong]
    simp only [List.filter_append, filter_skipped]
    by_cases hkind : f.kind = .correctable
    · refine iff_of_true ?_ (Or.inr ⟨hlong, hkind⟩)
      have hskip : [(f.kind.totalName, f.total)].filter
          (fun item => item.1 ≠ f.kind.skipped.toList) = [] := by
        rw [hkind]
        rfl
      rw [hskip, List.append_nil, List.map_map]
      refine ⟨floatSum_counts f.items, ?_⟩
      intro item hitem htotal
      obtain ⟨counted, hcounted, rfl⟩ := List.mem_map.mp hitem
      exact totalName_notMem f (List.mem_map.mpr ⟨counted, hcounted, htotal⟩)
    · refine iff_of_false ?_ (by simp [hlong, hkind])
      rintro ⟨_, hfree⟩
      refine hfree (f.kind.totalName, float64 f.total) ?_ rfl
      have hkept : f.kind.totalName ≠ f.kind.skipped.toList := by
        cases hk : f.kind with
        | correctable => exact absurd hk hkind
        | nonfatal => decide
        | fatal => decide
      simp [hkept]

/-! ## The last words -/

section Python

variable (U : CharTables)

/-- What the lines of a text add to the total. -/
def linesCount (text : Text) : Int := ((text.splitOnP isLineBreak).map (lineCount U)).sum

variable {U}

/-- An empty line counts nothing. -/
theorem lineCount_nil : lineCount U [] = 0 := rfl

/-- At a line break the counts of both sides add up. -/
theorem linesCount_append {c : Char} (hc : isLineBreak c = true) (a b : Text) :
    linesCount U (a ++ c :: b) = linesCount U a + linesCount U b := by
  rw [linesCount, List.splitOnP_append_cons a b hc, List.map_append, List.sum_append]
  rfl

/-- An empty text counts nothing. -/
theorem linesCount_nil : linesCount U [] = 0 := rfl

/-- An empty line at the end does not count. -/
theorem sum_splitlines (text : Text) :
    ((splitlines text).map (lineCount U)).sum = linesCount U text := by
  rw [splitlines, linesCount]
  generalize text.splitOnP isLineBreak = pieces
  split
  · rename_i hlast
    obtain ⟨front, rfl⟩ := List.getLast?_eq_some_iff.mp hlast
    simp [lineCount_nil]
  · rfl

/-- Nor does it matter how a newline is written. -/
theorem linesCount_universalNewlines (front text : Text) :
    linesCount U (front ++ universalNewlines text) = linesCount U (front ++ text) := by
  fun_induction universalNewlines text generalizing front with
  | case1 rest ih =>
      have hrest := ih []
      have hempty := linesCount_append (U := U) (c := '\n') (by decide) [] rest
      simp only [List.nil_append, linesCount_nil, zero_add] at hrest hempty
      rw [linesCount_append (by decide), linesCount_append (by decide), hempty, hrest]
  | case2 rest hnext ih =>
      have hrest := ih []
      simp only [List.nil_append] at hrest
      rw [linesCount_append (by decide), linesCount_append (by decide), hrest]
  | case3 c rest _ _ ih => rw [List.append_cons, ih, ← List.append_cons]
  | case4 => rfl

/-- The miscellaneous collector adds up what its lines count. -/
theorem parseAerFile_eq (text : Text) : parseAerFile U text = linesCount U text := by
  rw [parseAerFile, sum_splitlines]
  exact linesCount_universalNewlines [] text

/-- Of lines written one after the other as well. -/
theorem linesCount_flatMap (lines : List Text) :
    linesCount U (lines.flatMap fun line => line ++ ['\n']) =
      (lines.map (linesCount U)).sum := by
  induction lines with
  | nil => rfl
  | cons line lines ih =>
      rw [List.flatMap_cons, List.append_assoc, List.singleton_append,
        linesCount_append (by decide), ih, List.map_cons, List.sum_cons]

/-- Digits are read back as their number. -/
theorem decimal_toDigits (n : Nat) : U.decimal (Nat.toDigits 10 n) = n := by
  have hsame : U.decimal (Nat.toDigits 10 n) = decimalValue (Nat.toDigits 10 n) := by
    apply List.foldl_ext
    intro m c hc
    rw [U.digitValue_ascii c (isDigit_toDigits n c hc)]
  rw [hsame, decimalValue_toDigits]

/-- So are they by Python. -/
theorem pythonInt_toDigits {n : Nat} (hn : n < 2 ^ 64) :
    pythonInt U (Nat.toDigits 10 n) = some (n : Int) := by
  have hdigits := isDigit_toDigits n
  have hgroups := digitGroups_of_digits U Nat.toDigits_ne_nil hdigits
  have hlength : (Nat.toDigits 10 n).length ≤ maxStrDigits := by
    have hshort : (Nat.toDigits 10 n).length ≤ 20 :=
      (Nat.length_toDigits_le_iff (by decide) (by decide)).mpr (lt_trans hn (by decide))
    exact le_trans hshort (by decide)
  have hsign : (Nat.toDigits 10 n).head? ≠ some '-' := fun h =>
    ne_of_isDigit (hdigits '-' (List.mem_of_mem_head? h)) (by decide) rfl
  rw [pythonInt, unsigned_of_digits hdigits, hgroups]
  simp only [if_neg (not_lt.mpr hlength), if_neg hsign, decimal_toDigits]

/-- A line break is white space. -/
theorem isPySpace_of_isLineBreak {c : Char} (h : isLineBreak c = true) : isPySpace c = true := by
  simp only [isLineBreak, isPySpace, List.contains_eq_mem, decide_eq_true_eq, List.mem_cons,
    List.not_mem_nil, or_false, Bool.or_eq_true] at h ⊢
  left
  omega

/-- A line with a name and a count adds the count. -/
theorem linesCount_countLine {name : Text} (hne : name ≠ [])
    (hname : ∀ c ∈ name, isPySpace c = false) {count : Nat} (hcount : count < 2 ^ 64) :
    linesCount U (countLine name count) = count := by
  have hdark : ∀ c, isPySpace c = false → isLineBreak c = false := by
    intro c hc
    cases hbreak : isLineBreak c with
    | false => rfl
    | true =>
        rw [isPySpace_of_isLineBreak hbreak] at hc
        cases hc
  have hline : ∀ c ∈ countLine name count, isLineBreak c = false := by
    intro c hc
    rcases List.mem_append.mp hc with h | h
    · exact hdark c (hname c h)
    · rcases List.mem_cons.mp h with rfl | h
      · rfl
      · exact hdark c (isPySpace_of_isDigit (isDigit_toDigits count c h))
  rw [linesCount, List.splitOnP_eq_singleton hline, List.map_singleton, List.sum_singleton,
    lineCount, words_countLine hne hname]
  simp [pythonInt_toDigits hcount]

variable (U)

/-- What the malformed lines add to the total. -/
def malformedCount (items : List Item) : Int :=
  (items.map fun
    | .entry _ => 0
    | .malformed line _ _ => linesCount U line).sum

variable {U}

/-- The lines count the entries, and the malformed lines that have a number. -/
theorem sum_linesCount (items : List Item) :
    ((items.map Item.line).map (linesCount U)).sum =
      ((entries items).map Entry.count).sum + malformedCount U items := by
  induction items with
  | nil => rfl
  | cons item items ih =>
      rw [List.map_cons, List.map_cons, List.sum_cons, ih, malformedCount, malformedCount]
      cases item with
      | entry e =>
          have hcount : e.count < 2 ^ 64 := lt_trans e.count_lt (by decide)
          have hentries : entries (.entry e :: items) = e :: entries items := rfl
          rw [Item.line, linesCount_countLine e.name_ne e.name_dark hcount, hentries]
          simp only [List.map_cons, List.sum_cons, Nat.cast_add]
          omega
      | malformed line plain hline =>
          have hentries : entries (.malformed line plain hline :: items) = entries items := rfl
          rw [hentries, List.map_cons, List.sum_cons]
          simp only [Item.line]
          omega

/-- **The Python reader** adds the total and what stands at the end of malformed lines. -/
theorem parseAerFile_text (f : Contents) :
    parseAerFile U f.text = f.sum + (f.total + malformedCount U f.items) := by
  rw [parseAerFile_eq, Contents.text, linesCount_flatMap, Contents.lines, List.map_append,
    List.sum_append, sum_linesCount, List.map_singleton, List.sum_singleton,
    linesCount_countLine f.kind.totalName_ne f.kind.totalName_dark f.total_lt, Contents.sum]
  omega

end Python

/-! ## The pairs of words -/

/-- The token which is left over when tokens are paired. -/
def leftover : List Text → List Text
  | _ :: _ :: rest => leftover rest
  | tokens => tokens

/-- Pairs go on with the word which was left over. -/
theorem aerPairs_append (as bs : List Text) :
    aerPairs (as ++ bs) = aerPairs as ++ aerPairs (leftover as ++ bs) := by
  fun_induction leftover as with
  | case1 a b rest ih => rw [List.cons_append, List.cons_append, aerPairs, ih, aerPairs]; rfl
  | case2 tokens h =>
      have hnone : aerPairs tokens = [] := by
        unfold aerPairs
        split
        · exact absurd rfl (h _ _ _)
        · rfl
      rw [hnone, List.nil_append]

/-- One word is left over at most. -/
theorem length_leftover (tokens : List Text) : (leftover tokens).length ≤ 1 := by
  fun_induction leftover tokens with
  | case1 a b rest ih => exact ih
  | case2 tokens h =>
      match tokens, h with
      | [], _ => simp
      | [a], _ => simp
      | a :: b :: rest, h => exact absurd rfl (h a b rest)

/-- The words of an item. -/
def Item.words (item : Item) : List Text := fields item.line

/-- The pairs that are not the line of a type of error, behind a token that is left over. -/
def strayPairs : List Text → List Item → List (Text × Text)
  | _, [] => []
  | [], .entry _ :: items => strayPairs [] items
  | carry, item :: items =>
      aerPairs (carry ++ item.words) ++ strayPairs (leftover (carry ++ item.words)) items

/-- The types of errors whose lines are not paired, as a token is left over before them. -/
def missed : List Text → List Item → List Entry
  | _, [] => []
  | [], .entry _ :: items => missed [] items
  | carry, .entry e :: items => e :: missed (leftover (carry ++ (Item.entry e).words)) items
  | carry, item :: items => missed (leftover (carry ++ item.words)) items

/-- What is left over behind the items. -/
def carried : List Text → List Item → List Text
  | carry, [] => carry
  | carry, item :: items => carried (leftover (carry ++ item.words)) items

/-- One is carried at most from item to item. -/
theorem length_carried {carry : List Text} (hcarry : carry.length ≤ 1) (items : List Item) :
    (carried carry items).length ≤ 1 := by
  induction items generalizing carry with
  | nil => exact hcarry
  | cons item items ih => exact ih (length_leftover _)

/-- The words of an entry. -/
theorem words_entry (e : Entry) :
    (Item.entry e).words = [e.name, Nat.toDigits 10 e.count] :=
  fields_countLine e.name_ne e.name_dark e.count

/-- The pair of an entry has its count. -/
theorem pairValue_entry (e : Entry) :
    pairValue (e.name, Nat.toDigits 10 e.count) = some (.fin e.count) := by
  rw [pairValue, if_neg e.name_free, parseFloat_toDigits e.count_lt]

/-- The values of some pairs. -/
def pairValues (pairs : List (Text × Text)) : Option ℚ := floatSum (pairs.filterMap pairValue)

/-- The values of pairs add up. -/
theorem pairValues_append (ps qs : List (Text × Text)) :
    pairValues (ps ++ qs) = (pairValues ps).bind fun a => (pairValues qs).map (a + ·) := by
  rw [pairValues, List.filterMap_append, floatSum_append]
  rfl

/-- The pairs of all items: those that are lines, and the stray ones. -/
theorem pairValues_items (carry : List Text) (items : List Item) (rest : List Text) :
    ∃ read : Nat, read + ((missed carry items).map Entry.count).sum =
        ((entries items).map Entry.count).sum ∧
      pairValues (aerPairs (carry ++ (items.flatMap Item.words ++ rest))) =
        (pairValues (strayPairs carry items)).bind fun stray =>
          (pairValues (aerPairs (carried carry items ++ rest))).map (stray + read + ·) := by
  fun_induction strayPairs carry items with
  | case1 carry =>
      refine ⟨0, rfl, ?_⟩
      cases pairValues (aerPairs (carry ++ rest)) <;> simp [carried, pairValues, floatSum]
  | case2 e items ih =>
      obtain ⟨read, hread, hvalues⟩ := ih
      have hentries : entries (.entry e :: items) = e :: entries items := rfl
      refine ⟨e.count + read, ?_, ?_⟩
      · rw [hentries, missed, List.map_cons, List.sum_cons]
        omega
      · have htokens : [] ++ ((Item.entry e :: items).flatMap Item.words ++ rest) =
            e.name :: Nat.toDigits 10 e.count :: ([] ++ (items.flatMap Item.words ++ rest)) := by
          simp [words_entry]
        have hcarried : carried [] (.entry e :: items) = carried [] items := by
          simp [carried, words_entry, leftover]
        have hpair : pairValues [(e.name, Nat.toDigits 10 e.count)] = some (e.count : ℚ) := by
          simp [pairValues, pairValue_entry, floatSum]
        rw [htokens, hcarried, aerPairs, ← List.singleton_append, pairValues_append, hvalues, hpair]
        cases pairValues (strayPairs [] items) with
        | none => rfl
        | some stray =>
            cases pairValues (aerPairs (carried [] items ++ rest)) with
            | none => rfl
            | some tail =>
                simp only [Option.bind_some, Option.map_some, Option.some.injEq]
                push_cast
                ring
  | case3 carry item items hnot ih =>
      obtain ⟨read, hread, hvalues⟩ := ih
      refine ⟨read, ?_, ?_⟩
      · cases item with
        | entry e =>
            have hentries : entries (.entry e :: items) = e :: entries items := rfl
            obtain ⟨w, ws, rfl⟩ := List.exists_cons_of_ne_nil fun hnil => hnot e hnil rfl
            have hmissed : missed (w :: ws) (.entry e :: items) =
                e :: missed (leftover (w :: ws ++ (Item.entry e).words)) items := rfl
            rw [hentries, hmissed, List.map_cons, List.map_cons, List.sum_cons, List.sum_cons]
            omega
        | malformed line plain hline =>
            have hentries : entries (.malformed line plain hline :: items) = entries items := rfl
            rw [hentries, ← hread]
            cases carry <;> rfl
      · rw [List.flatMap_cons, List.append_assoc, ← List.append_assoc carry, aerPairs_append,
          pairValues_append, hvalues, pairValues_append, carried]
        cases pairValues (aerPairs (carry ++ item.words)) with
        | none => rfl
        | some here =>
            cases pairValues (strayPairs (leftover (carry ++ item.words)) items) with
            | none => rfl
            | some stray =>
                cases pairValues (aerPairs (carried (leftover (carry ++ item.words)) items ++
                  rest)) with
                | none => rfl
                | some tail =>
                    simp only [Option.bind_some, Option.map_some, Option.some.injEq]
                    ring

/-- The name of a total is no number. -/
theorem parseFloat_totalName (kind : Kind) : parseFloat kind.totalName = none := by
  cases kind <;> decide +kernel

/-- The total is skipped, or paired as a count that it is not. -/
theorem pairValues_total (kind : Kind) (total : Text) {carry : List Text}
    (hcarry : carry.length ≤ 1) :
    pairValues (aerPairs (carry ++ [kind.totalName, total])) = some 0 := by
  cases carry with
  | nil =>
      have hskip : pairValue (kind.totalName, total) = none :=
        if_pos (total_isPrefix_totalName kind)
      simp [aerPairs, pairValues, hskip, floatSum]
  | cons w ws =>
      obtain rfl : ws = [] := by
        rw [← List.length_eq_zero_iff]
        simp only [List.length_cons] at hcarry
        omega
      have hnone : pairValue (w, kind.totalName) = none := by
        rw [pairValue, parseFloat_totalName, ite_self]
      simp [aerPairs, pairValues, hnone, floatSum]

/-- The words of a file are those of its lines. -/
theorem fields_flatMap (lines : List Text) :
    fields (lines.flatMap fun line => line ++ ['\n']) = lines.flatMap fields := by
  induction lines with
  | nil => rfl
  | cons line lines ih =>
      rw [List.flatMap_cons, List.append_assoc, List.singleton_append, fields_eq_wordsBy,
        wordsBy_append_cons (by decide), List.flatMap_cons, ← ih]
      rfl

/-- So they are those of its items and the total. -/
theorem fields_text (f : Contents) :
    fields f.text =
      f.items.flatMap Item.words ++ [f.kind.totalName, Nat.toDigits 10 f.total] := by
  rw [Contents.text, fields_flatMap, Contents.lines, List.flatMap_append, List.flatMap_map,
    List.flatMap_singleton, fields_countLine f.kind.totalName_ne f.kind.totalName_dark]
  rfl

/-- The BMC side adds up the pairs of words. -/
theorem values_parseAERSysfsFile (lower : Char → Char) (data : Text)
    (subtypeMap : List (Text × Text)) :
    floatSum ((parseAERSysfsFile lower data subtypeMap).map AerParsedCount.value) =
      pairValues (aerPairs (fields data)) := by
  rw [parseAERSysfsFile, pairValues, List.map_filterMap]
  congr 1
  apply List.filterMap_congr
  intro p _
  rw [aerCount, Option.map_map]
  exact Option.map_id'

/-- **The pairs** add up to the sum exactly when the stray ones make up for the types of errors
that are missed. -/
theorem parsed_iff (lower : Char → Char) (f : Contents) :
    floatSum ((parseAERSysfsFile lower f.text f.kind.subtypes).map AerParsedCount.value) =
        some (f.sum : ℚ) ↔
      pairValues (strayPairs [] f.items) =
        some (((missed [] f.items).map Entry.count).sum : ℚ) := by
  obtain ⟨read, hread, hvalues⟩ :=
    pairValues_items [] f.items [f.kind.totalName, Nat.toDigits 10 f.total]
  have hcarried : (carried [] f.items).length ≤ 1 := length_carried (by simp) f.items
  have htotal := pairValues_total f.kind (Nat.toDigits 10 f.total) hcarried
  rw [values_parseAERSysfsFile, fields_text, ← List.nil_append (f.items.flatMap _ ++ _), hvalues,
    htotal, Contents.sum, ← hread]
  cases pairValues (strayPairs [] f.items) with
  | none => simp
  | some stray =>
      simp only [Option.bind_some, Option.map_some, Option.some.injEq, Nat.cast_add]
      constructor
      · intro h
        linarith
      · intro h
        linarith

/-! ## Agreement -/

/-- When the three readers agree: the file holds the correctable errors, with lines that fit
into the buffer of the collector (or its counts are all zero, and a line does not fit); the pairs
of words that are not the line of a type of error make up for the types that are missed; and the
total makes up for what stands at the end of malformed lines. -/
structure ReadAlike (U : CharTables) (f : Contents) : Prop where
  lines : (f.Overlong ∧ f.sum = 0) ∨ (¬ f.Overlong ∧ f.kind = .correctable)
  pairs : pairValues (strayPairs [] f.items) =
    some (((missed [] f.items).map Entry.count).sum : ℚ)
  lastWords : f.total + malformedCount U f.items = 0

/-- **The three readers** of a file in the kernel's format agree exactly when it is read alike. -/
theorem counts_agree_iff (U : CharTables) (lower : Char → Char) (f : Contents) :
    Agree U lower f ↔ ReadAlike U f := by
  have hskipped : ∀ p ∈ aerPairs (fields f.text), p.1 = f.kind.totalName →
      aerCount lower f.kind.subtypes p = none := by
    intro p _ hp
    rw [aerCount, pairValue, hp, if_pos (total_isPrefix_totalName f.kind)]
    rfl
  constructor
  · intro h
    refine ⟨(collected_iff f).mp ⟨h.collected, h.collected_total⟩,
      (parsed_iff lower f).mp h.parsed, ?_⟩
    have hsummed := h.summed
    rw [parseAerFile_text] at hsummed
    omega
  · intro h
    obtain ⟨hcollected, htotal⟩ := (collected_iff f).mpr h.lines
    refine ⟨hcollected, (parsed_iff lower f).mpr h.pairs, ?_, htotal, hskipped⟩
    rw [parseAerFile_text, h.lastWords, Int.add_zero]

/-- The error type has no white space. -/
theorem badTLP_dark : ∀ c ∈ "BadTLP".toList, isPySpace c = false := by
  have hall : "BadTLP".toList.all (fun c => !isPySpace c) = true := by decide
  intro c hc
  simpa using List.all_eq_true.mp hall c hc

/-- `BadTLP 3` and the total of the correctable errors. -/
def badTLP : Contents where
  kind := .correctable
  items := [.entry ⟨"BadTLP".toList, 3, by decide, badTLP_dark, by decide, by decide⟩]
  total := 3
  distinct := by decide
  total_lt := by decide

/-- The Python reader adds the total once more. -/
theorem badTLP_doubled : badTLP.text = "BadTLP 3\nTOTAL_ERR_COR 3\n".toList ∧
    ¬ Agree Trace.asciiTables Char.toLower badTLP := by
  refine ⟨by decide, fun h => ?_⟩
  have hsummed := h.summed
  rw [parseAerFile_text] at hsummed
  exact absurd hsummed (by decide)

end FaultOracle.Aer
