import FaultOracle.EdacPatterns
import FaultOracle.TraceParserRuns

/-!
# Logs of fully specified EDAC lines

A line with one of the documented prefixes, a report, a detail block and a location, among
lines which match no pattern.  Its pattern claims it at its start, its details are those
of the first parenthesis and its location is the first one, so whatever the following
lines carry does not count.  Every such line gives the event it describes, as long as
Python converts its numbers; `parseFile_exact_iff` says that this is the only exception.
-/

namespace FaultOracle.Trace

open BacktrackingRegex PythonFloats
open CheckedLoops (bind_eq_ok)
open FaultOracle.Remediation (isPySpace strip)

/-! ## Lines -/

/-- The parts of a syslog prefix, `Jun  5 12:34:56 host kernel: `. -/
structure SyslogStamp (U : CharTables) where
  month : Text
  blanks : Nat
  day : Text
  hour : Text
  minute : Text
  second : Text
  host : Text
  month_length : month.length = 3
  month_word : ∀ c ∈ month, U.isWord c = true
  blanks_pos : 0 < blanks
  day_digits : U.Digits day
  hour_length : hour.length = 2
  hour_digits : ∀ c ∈ hour, U.isDigit c = true
  minute_length : minute.length = 2
  minute_digits : ∀ c ∈ minute, U.isDigit c = true
  second_length : second.length = 2
  second_digits : ∀ c ∈ second, U.isDigit c = true
  host_ne : host ≠ []
  host_dark : ∀ c ∈ host, isPySpace c = false

/-- The documented prefixes.  Raw dmesg and `journald -o short-monotonic` differ in the
blanks that fill up the timestamp. -/
inductive LinePrefix (U : CharTables)
  | monotonic (blanks : Nat) (whole fraction : Text) (hwhole : U.Digits whole)
      (hfraction : U.Digits fraction)
  | syslog (stamp : SyslogStamp U)
  | stripped

/-- The seconds of a monotonic timestamp. -/
def secondsText (whole fraction : Text) : Text := whole ++ ".".toList ++ fraction

/-- The date and time of a syslog prefix. -/
def SyslogStamp.time {U : CharTables} (s : SyslogStamp U) : Text :=
  s.month ++ List.replicate s.blanks ' ' ++ s.day ++ " ".toList ++
    (s.hour ++ ":".toList ++ s.minute ++ ":".toList ++ s.second)

def LinePrefix.text {U : CharTables} : LinePrefix U → Text
  | .monotonic blanks whole fraction _ _ =>
      "[".toList ++ (List.replicate blanks ' ' ++ secondsText whole fraction) ++ "]".toList ++
        " ".toList
  | .syslog s => s.time ++ " ".toList ++ s.host ++ " ".toList ++ "kernel:".toList ++ " ".toList
  | .stripped => []

/-- A fully specified EDAC line. -/
structure EdacLine (U : CharTables) where
  start : LinePrefix U
  controller : Text
  count : Text
  kind : EdacKind
  label : Text
  mc : Text
  page : Text
  offset : Text
  grain : Text
  syndrome : Text
  between : Text
  row : Text
  channel : Text
  rest : Text
  controller_digits : U.Digits controller
  count_digits : U.Digits count
  label_plain : '(' ∉ label ∧ ')' ∉ label ∧ '\n' ∉ label
  label_free : ¬ "csrow:".toList <:+: label
  mc_digits : U.Digits mc
  page_digits : HexDigits page
  offset_digits : HexDigits offset
  grain_digits : U.Digits grain
  syndrome_digits : HexDigits syndrome
  between_plain : '\n' ∉ between
  /-- The location is the first one after the details. -/
  between_free : (reEdacLocation U).search between = none
  row_digits : U.Digits row
  channel_digits : U.Digits channel
  rest_plain : '\n' ∉ rest
  /-- The channel ends before it. -/
  rest_stops : Stops U.isDigit rest

namespace EdacLine

variable {U : CharTables} (l : EdacLine U)

/-- The line from the report up to the details. -/
def front : Text :=
  reportText l.controller l.count l.kind.word ++ " ".toList ++ l.label ++ " ".toList

/-- The details without the closing parenthesis. -/
def details : Text := detailText l.mc l.page l.offset l.grain l.syndrome

/-- The location. -/
def location : Text := locationText l.row " ".toList l.channel

/-- The line without its prefix. -/
def body : Text :=
  l.front ++ (l.details ++ (")".toList ++ (l.between ++ (l.location ++ l.rest))))

/-- The line. -/
def text : Text := l.start.text ++ l.body

end EdacLine

/-- What an event says of the error. -/
structure Reading where
  seq : Nat
  eventType : EventType
  count : Nat
  controller : Text
  csrow : Option Nat
  channel : Option Nat
  page : Option Nat
  offset : Option Nat
  grain : Option Nat
  syndrome : Option Text
deriving DecidableEq

def HardwareEvent.reading (e : HardwareEvent) : Reading where
  seq := e.seq
  eventType := e.eventType
  count := e.count
  controller := e.controller
  csrow := e.csrow
  channel := e.channel
  page := e.page
  offset := e.offset
  grain := e.grain
  syndrome := e.syndrome

/-- What is written on the line, for the event with the number `seq`. -/
def EdacLine.reading {U : CharTables} (l : EdacLine U) (seq : Nat) : Reading where
  seq := seq
  eventType := l.kind.type
  count := U.decimal l.count
  controller := "MC".toList ++ l.controller
  csrow := some (U.decimal l.row)
  channel := some (U.decimal l.channel)
  page := some (hexadecimal l.page)
  offset := some (hexadecimal l.offset)
  grain := some (U.decimal l.grain)
  syndrome := some l.syndrome

/-- The nanoseconds of a monotonic timestamp are a finite double. -/
def LinePrefix.Converts {U : CharTables} : LinePrefix U → Prop
  | .monotonic _ whole fraction _ _ =>
      ∃ q, (U.parseFloat (secondsText whole fraction)).mulPos 1000000000 = .fin q
  | _ => True

/-- Python converts the numbers of the line. -/
structure EdacLine.Converts {U : CharTables} (l : EdacLine U) : Prop where
  count : l.count.length ≤ maxStrDigits
  grain : l.grain.length ≤ maxStrDigits
  row : l.row.length ≤ maxStrDigits
  channel : l.channel.length ≤ maxStrDigits
  start : l.start.Converts

/-- A line which matches no event pattern. -/
structure Filler (U : CharTables) where
  text : Text
  plain : '\n' ∉ text
  no_ce : (reEdacCe U).search (cleanLine U text) = none
  no_ue : (reEdacUe U).search (cleanLine U text) = none
  no_aer_corrected : (reAerCorrected U).search (cleanLine U text) = none
  no_aer_uncorrected : (reAerUncorrected U).search (cleanLine U text) = none
  no_mce : (reMce U).search (cleanLine U text) = none

/-- A line of the log. -/
inductive LogLine (U : CharTables)
  | edac (l : EdacLine U)
  | filler (f : Filler U)

def LogLine.text {U : CharTables} : LogLine U → Text
  | .edac l => l.text
  | .filler f => f.text

/-- The text of a log, its lines separated by newlines. -/
def logText {U : CharTables} (log : List (LogLine U)) : Text :=
  ['\n'].intercalate (log.map LogLine.text)

/-- The EDAC lines of a log. -/
def edacLines {U : CharTables} (log : List (LogLine U)) : List (EdacLine U) :=
  log.filterMap fun
    | .edac l => some l
    | .filler _ => none

/-! ## Lines of a file -/

/-- A line ends with its newline. -/
theorem readlines_append_newline {l : Text} (h : '\n' ∉ l) (rest : Text) :
    readlines (l ++ '\n' :: rest) = (l ++ ['\n']) :: readlines rest := by
  induction l with
  | nil => simp [readlines]
  | cons c l ih =>
      simp only [List.mem_cons, not_or] at h
      obtain ⟨hc, hl⟩ := h
      rw [List.cons_append, readlines, if_neg (Ne.symm hc), ih hl]
      rfl

/-- The last line may have none. -/
theorem readlines_of_plain {l : Text} (h : '\n' ∉ l) (hne : l ≠ []) : readlines l = [l] := by
  induction l with
  | nil => exact absurd rfl hne
  | cons c l ih =>
      simp only [List.mem_cons, not_or] at h
      obtain ⟨hc, hl⟩ := h
      rw [readlines, if_neg (Ne.symm hc)]
      cases l with
      | nil => rfl
      | cons d l => rw [ih hl (by simp)]

/-- Nothing is stripped from a line without a newline. -/
theorem rstripNewline_of_plain {l : Text} (h : '\n' ∉ l) : rstripNewline l = l := by
  rw [rstripNewline]
  cases hrev : l.reverse with
  | nil => rw [List.reverse_eq_nil_iff.mp hrev]; rfl
  | cons c r =>
      have hc : c ≠ '\n' := by
        intro heq
        apply h
        rw [← heq, ← List.mem_reverse, hrev]
        exact List.mem_cons_self
      rw [List.dropWhile_cons_of_neg (by simpa using hc), ← hrev, List.reverse_reverse]

/-- The newline at the end is stripped. -/
theorem rstripNewline_append_newline {l : Text} (h : '\n' ∉ l) :
    rstripNewline (l ++ ['\n']) = l := by
  have hsame : rstripNewline (l ++ ['\n']) = rstripNewline l := by
    simp [rstripNewline]
  rw [hsame, rstripNewline_of_plain h]

/-! ## The prefix -/

section Prefix

variable {U : CharTables}

/-- A pattern with a bracket in front needs one. -/
theorem not_at_bracket {a : Re} {c : Char} {text : Text} (hc : c ≠ '[') :
    ¬ (Re.lit "[".toList ++ a).At (c :: text) := by
  intro h
  obtain ⟨rfl, _⟩ := List.cons_prefix_cons.mp (at_lit.mp h.left)
  exact hc rfl

/-- A month has three letters. -/
theorem not_at_syslogTime {a b c d : Char} {text : Text} (hd : isPySpace d = false) :
    ¬ (reSyslogTime U).At (a :: b :: c :: d :: text) := by
  intro h
  obtain ⟨_, hw, hpre⟩ := h.left.left.left
  obtain ⟨month, gap, hmonth, hgap, rfl⟩ := lang_append.mp hw
  obtain ⟨hlen, _⟩ := lang_times.mp hmonth
  obtain ⟨hne, hspaces⟩ := lang_plus.mp hgap
  obtain ⟨x, y, z, rfl⟩ := List.length_eq_three.mp hlen
  obtain ⟨e, gap, rfl⟩ := List.exists_cons_of_ne_nil hne
  simp only [List.cons_append, List.nil_append, List.cons_prefix_cons] at hpre
  have he : isPySpace e = true := hspaces e (by simp)
  rw [hpre.2.2.2.1, hd] at he
  cases he

/-- Only a bracket is removed as one. -/
theorem removeStart_bracket {c : Char} {text : Text} (hc : c ≠ '[') :
    (reBracketPrefix U).removeStart (c :: text) = c :: text := by
  apply removeStart_eq_self
  intro h
  exact not_at_bracket hc h.left.left

/-- A report is no syslog prefix. -/
theorem removeStart_report {tail : Text} :
    (reSyslogPrefix U).removeStart ('E' :: 'D' :: 'A' :: 'C' :: tail) =
      'E' :: 'D' :: 'A' :: 'C' :: tail := by
  apply removeStart_eq_self
  intro h
  exact not_at_syslogTime (by decide) h.left.left.left.left.left

/-- Blanks are white space. -/
theorem blanks_spaces (n : Nat) : ∀ c ∈ List.replicate n ' ', isPySpace c = true := by
  intro c hc
  rw [List.eq_of_mem_replicate hc]
  exact isPySpace_blank

/-- The seconds of a monotonic timestamp are read. -/
theorem reads_seconds {whole fraction rest : Text} (hwhole : U.Digits whole)
    (hfraction : U.Digits fraction) (hrest : Stops U.isDigit rest) :
    Reads (Re.plus U.isDigit ++ Re.lit ".".toList ++ Re.plus U.isDigit)
      (secondsText whole fraction) rest id := by
  apply ((hwhole.reads _).append (reads_lit _ _)).append (hfraction.reads hrest)
  simp [U.isDigit_ascii]

/-- A number of seconds has a digit. -/
theorem secondsText_ne {whole fraction : Text} (hwhole : U.Digits whole) :
    secondsText whole fraction ≠ [] := by
  obtain ⟨c, whole, rfl⟩ := List.exists_cons_of_ne_nil hwhole.1
  simp [secondsText]

/-- The monotonic time is taken off the line. -/
theorem removeStart_monotonic {blanks : Nat} {whole fraction tail : Text}
    (hwhole : U.Digits whole) (hfraction : U.Digits fraction) (htail : Stops isPySpace tail) :
    (reBracketPrefix U).removeStart ("[".toList ++
      (List.replicate blanks ' ' ++ secondsText whole fraction) ++ "]".toList ++ " ".toList ++
        tail) = tail := by
  apply Reads.removeStart
  apply (((reads_lit _ _).append (reads_plus _ _ _)).append (reads_lit _ _)).append
    (reads_blank' htail)
  · simp [secondsText_ne hwhole]
  · intro c hc
    simp only [secondsText, List.mem_append] at hc
    rcases hc with hc | (hc | hc) | hc
    · simp [blanks_spaces blanks c hc]
    · simp [hwhole.2 c hc]
    · obtain rfl : c = '.' := by simpa using hc
      simp
    · simp [hfraction.2 c hc]
  · have hspace : isPySpace ']' = false := rfl
    simp [U.isDigit_ascii, hspace]

/-- And read as its seconds. -/
theorem extractTimestamp_monotonic {blanks : Nat} {whole fraction tail : Text}
    (hwhole : U.Digits whole) (hfraction : U.Digits fraction) :
    (extractTimestamp U ("[".toList ++
      (List.replicate blanks ' ' ++ secondsText whole fraction) ++ "]".toList ++ tail)).1 =
        some (U.parseFloat (secondsText whole fraction)) := by
  have hdigit : Stops isPySpace (secondsText whole fraction ++ ("]".toList ++ tail)) := by
    rw [secondsText, List.append_assoc, List.append_assoc]
    exact hwhole.stops_spaces _
  have hclose : Stops U.isDigit ("]".toList ++ tail) := by simp [U.isDigit_ascii]
  have hreads := (((reads_lit "[".toList _).append
    (reads_star (blanks_spaces blanks) hdigit)).append
      ((reads_seconds hwhole hfraction hclose).group 1)).append (reads_lit "]".toList tail)
  rw [extractTimestamp, reMonotonic, ← List.append_assoc "[".toList, hreads.matchStart]
  rfl

/-- Without a bracket there is no monotonic time. -/
theorem extractTimestamp_other {c : Char} {text : Text} (hc : c ≠ '[') :
    (extractTimestamp U (c :: text)).1 = none := by
  have hnone : (reMonotonic U).matchStart (c :: text) = none := by
    apply matchStart_eq_none
    intro h
    exact not_at_bracket hc h.left.left
  rw [extractTimestamp, hnone]
  cases (reSyslogTs U).matchStart (c :: text) <;> rfl

/-- The time of a syslog line is read as a whole. -/
theorem SyslogStamp.reads_time (s : SyslogStamp U) (rest : Text) :
    Reads (reSyslogTime U) s.time rest id := by
  have hblanks : List.replicate s.blanks ' ' ≠ [] := by
    have hpos := s.blanks_pos
    simp only [ne_eq, List.replicate_eq_nil_iff]
    omega
  have htime : Reads (reTimeOfDay U)
      (s.hour ++ ":".toList ++ s.minute ++ ":".toList ++ s.second) rest id :=
    ((((reads_times s.hour_length s.hour_digits).append (reads_lit _ _)).append
      (reads_times s.minute_length s.minute_digits)).append (reads_lit _ _)).append
        (reads_times s.second_length s.second_digits)
  apply ((((reads_times s.month_length s.month_word).append
    (reads_plus hblanks (blanks_spaces _) _)).append (s.day_digits.reads _)).append
      (reads_blank _)).append htime
  · exact s.day_digits.stops_spaces _
  · simp [U.isDigit_ascii]
  · obtain ⟨c, d, hhour⟩ := List.length_eq_two.mp s.hour_length
    have hc : U.isDigit c = true := s.hour_digits c (by simp [hhour])
    simp [hhour, U.isPySpace_of_isDigit c hc]

/-- It is taken off with the host and the tag. -/
theorem SyslogStamp.removeStart (s : SyslogStamp U) {tail : Text} (htail : Stops isPySpace tail) :
    (reSyslogPrefix U).removeStart (s.time ++ " ".toList ++ s.host ++ " ".toList ++
      "kernel:".toList ++ " ".toList ++ tail) = tail := by
  have hhost : ∀ c ∈ s.host, (!isPySpace c) = true := by
    intro c hc
    simp [s.host_dark c hc]
  apply Reads.removeStart
  apply (((((s.reads_time _).append (reads_blank _)).append (reads_plus s.host_ne hhost _)).append
    (reads_blank _)).append (reads_lit _ _)).append (reads_blank' htail)
  · obtain ⟨c, host, hsplit⟩ := List.exists_cons_of_ne_nil s.host_ne
    simp [hsplit, s.host_dark c (by simp [hsplit])]
  · simp [isPySpace_blank]
  · simp [show isPySpace 'k' = false from rfl]

/-- A syslog prefix begins with a letter. -/
theorem SyslogStamp.exists_cons (s : SyslogStamp U) :
    ∃ c more, s.time = c :: more ∧ c ≠ '[' := by
  obtain ⟨x, y, z, hmonth⟩ := List.length_eq_three.mp s.month_length
  refine ⟨x, _, by rw [SyslogStamp.time, hmonth]; rfl, ?_⟩
  rintro rfl
  have hword := s.month_word '[' (by simp [hmonth])
  simp [U.isWord_ascii] at hword

/-- The monotonic time of a prefix. -/
def LinePrefix.seconds : LinePrefix U → Option PyFloat
  | .monotonic _ whole fraction _ _ => some (U.parseFloat (secondsText whole fraction))
  | _ => none

/-- **The prefix** is removed, whichever of the documented ones it is. -/
theorem LinePrefix.cleanLine_append (p : LinePrefix U) (tail : Text) :
    cleanLine U (p.text ++ 'E' :: 'D' :: 'A' :: 'C' :: tail) =
      'E' :: 'D' :: 'A' :: 'C' :: tail := by
  have hdark : Stops isPySpace ('E' :: 'D' :: 'A' :: 'C' :: tail) := by
    simp [show isPySpace 'E' = false from rfl]
  cases p with
  | monotonic blanks whole fraction hwhole hfraction =>
      rw [cleanLine, LinePrefix.text, removeStart_monotonic hwhole hfraction hdark,
        removeStart_report]
  | syslog s =>
      obtain ⟨c, more, hcons, hc⟩ := s.exists_cons
      have hbracket : (reBracketPrefix U).removeStart (s.time ++ " ".toList ++ s.host ++
          " ".toList ++ "kernel:".toList ++ " ".toList ++ 'E' :: 'D' :: 'A' :: 'C' :: tail) =
          s.time ++ " ".toList ++ s.host ++ " ".toList ++ "kernel:".toList ++ " ".toList ++
            'E' :: 'D' :: 'A' :: 'C' :: tail := by
        rw [hcons]
        exact removeStart_bracket hc
      rw [cleanLine, LinePrefix.text, hbracket, s.removeStart hdark]
  | stripped =>
      rw [cleanLine, LinePrefix.text, List.nil_append, removeStart_bracket (by decide),
        removeStart_report]

/-- Either kind of start gives its seconds. -/
theorem LinePrefix.extractTimestamp_append (p : LinePrefix U) (tail : Text) :
    (extractTimestamp U (p.text ++ 'E' :: tail)).1 = p.seconds := by
  cases p with
  | monotonic blanks whole fraction hwhole hfraction =>
      rw [LinePrefix.text, List.append_assoc _ " ".toList]
      exact extractTimestamp_monotonic hwhole hfraction
  | syslog s =>
      obtain ⟨c, more, hcons, hc⟩ := s.exists_cons
      rw [LinePrefix.text, hcons]
      exact extractTimestamp_other hc
  | stripped => exact extractTimestamp_other (by decide)

/-- The timestamp is converted when its nanoseconds are a finite double. -/
theorem LinePrefix.converts_iff (p : LinePrefix U) :
    p.Converts ↔ ∃ ns, timestampNs p.seconds = .ok ns := by
  cases p with
  | monotonic blanks whole fraction hwhole hfraction =>
      rw [LinePrefix.Converts, LinePrefix.seconds, exists_timestampNs_iff]
  | syslog s => simp [LinePrefix.Converts, LinePrefix.seconds, timestampNs]
  | stripped => simp [LinePrefix.Converts, LinePrefix.seconds, timestampNs]

end Prefix

/-! ## An EDAC line -/

section Line

variable {U : CharTables}

/-- A character which is no digit and not in the fixed words is not in a report. -/
theorem notMem_reportText {controller count : Text} {kind : EdacKind} {x : Char}
    (hcontroller : U.Digits controller) (hcount : U.Digits count) (hx : U.isDigit x = false)
    (hlit : x ∉ "EDAC MC:CUE".toList) : x ∉ reportText controller count kind.word := by
  have h₁ := hcontroller.notMem hx
  have h₂ := hcount.notMem hx
  simp only [String.reduceToList, List.mem_cons, List.not_mem_nil, not_or, or_false] at hlit
  cases kind <;> simp [reportText_eq, EdacKind.word, h₁, h₂, hlit]

/-- Nor is it in the details. -/
theorem notMem_detailText {mc page offset grain syndrome : Text} {x : Char} (hmc : U.Digits mc)
    (hpage : HexDigits page) (hoffset : HexDigits offset) (hgrain : U.Digits grain)
    (hsyndrome : HexDigits syndrome) (hx : U.isDigit x = false) (hhex : isHexDigit x = false)
    (hlit : x ∉ "(mc: page:0x offset:0x grain: syndrome:0x".toList) :
    x ∉ detailText mc page offset grain syndrome := by
  have hexes : ∀ {d : Text}, HexDigits d → x ∉ d := by
    intro d hd hmem
    rw [hd.2 x hmem] at hhex
    cases hhex
  have h₁ := hmc.notMem hx
  have h₂ := hgrain.notMem hx
  simp only [String.reduceToList, List.mem_cons, List.not_mem_nil, not_or, or_false] at hlit
  simp [detailText_eq, h₁, h₂, hexes hpage, hexes hoffset, hexes hsyndrome, hlit]

namespace EdacLine

variable (l : EdacLine U)

/-- The location of a line is one the pattern knows. -/
theorem isLocation : IsLocation U l.row " ".toList l.channel where
  row := l.row_digits
  gap := ⟨by simp, by simp [isPySpace_blank]⟩
  channel := l.channel_digits

/-- No bracket stands before the details. -/
theorem paren_notMem_front : '(' ∉ l.front := by
  have hreport : '(' ∉ reportText l.controller l.count l.kind.word :=
    notMem_reportText l.controller_digits l.count_digits (by simp [U.isDigit_ascii]) (by decide)
  simp [front, hreport, l.label_plain.1]

/-- No location begins before the one after the details. -/
theorem not_occurs_before :
    ¬ (reEdacLocation U).Occurs (l.front ++ (l.details ++ ")".toList) ++ l.between) := by
  intro h
  have hsplit : l.front ++ (l.details ++ ")".toList) ++ l.between =
      (l.front ++ l.details) ++ ')' :: l.between := by simp
  have hw : U.isDigit 'w' = false := by simp [U.isDigit_ascii]
  rw [hsplit] at h
  rcases occurs_append_cons h (by simp [U.isDigit_ascii]) (by decide) (by decide) (by decide)
    with h | h
  · -- a `csrow:` before the closing parenthesis would be in the label
    have hreport : 'w' ∉ reportText l.controller l.count l.kind.word :=
      notMem_reportText l.controller_digits l.count_digits hw (by decide)
    have hdetails : 'w' ∉ l.details :=
      notMem_detailText l.mc_digits l.page_digits l.offset_digits l.grain_digits
        l.syndrome_digits hw (by decide) (by decide)
    have hwhole : "csrow:".toList <:+: reportText l.controller l.count l.kind.word ++
        ' ' :: (l.label ++ ' ' :: l.details) := by
      simpa [front] using infix_of_occurs_location h
    have hcsrow : 'w' ∈ "csrow:".toList := by decide
    rcases infix_append_cons hwhole (by decide) with hin | hin
    · exact hreport (hin.subset hcsrow)
    · rcases infix_append_cons hin (by decide) with hin | hin
      · exact l.label_free hin
      · exact hdetails (hin.subset hcsrow)
  · exact reEdacLocation_plain.search_eq_none_iff.mp l.between_free h

/-- The location of the line is found, whatever is appended. -/
theorem search_location (more : Text) :
    ∃ m, (reEdacLocation U).search (l.body ++ (" ".toList ++ more)) = some m ∧
      m.groups = locationGroups l.row l.channel := by
  have hrest : Stops U.isDigit (l.rest ++ (" ".toList ++ more)) := by
    cases hcases : l.rest with
    | nil => simp [U.isDigit_ascii]
    | cons c rest =>
        have hstops := l.rest_stops
        rw [hcases] at hstops
        simpa using hstops
  have hbody : l.body ++ (" ".toList ++ more) =
      (l.front ++ (l.details ++ ")".toList) ++ l.between) ++
        (l.location ++ (l.rest ++ (" ".toList ++ more))) := by
    simp only [body, List.append_assoc]
  rw [hbody]
  refine ⟨_, l.isLocation.search hrest ?_, rfl⟩
  intro u v hsplit hv
  apply not_at_append_location hv
  intro hat
  exact l.not_occurs_before ⟨u, v, hsplit, hat⟩

/-- The details of the line are found, whatever is appended. -/
theorem edacDetails_body (more : Text) :
    edacDetails U (l.body ++ (" ".toList ++ more)) =
      detailGroups l.page l.offset l.grain l.syndrome := by
  have hbody : l.body ++ (" ".toList ++ more) = l.front ++ (l.details ++
      (")".toList ++ (l.between ++ (l.location ++ (l.rest ++ (" ".toList ++ more)))))) := by
    simp only [body, List.append_assoc]
  rw [hbody]
  exact edacDetails_eq l.paren_notMem_front l.mc_digits l.page_digits l.offset_digits
    l.grain_digits l.syndrome_digits (by simp [show isHexDigit ')' = false from rfl])

/-- The line is claimed by the pattern of its kind. -/
theorem tryPatterns_body :
    ∃ m, tryPatterns U l.body = some (.edac l.kind.type m) ∧
      m.groups = reportGroups l.controller l.count := by
  have hbody : l.body = reportText l.controller l.count l.kind.word ++ (" ".toList ++ (l.label ++
      (" ".toList ++ (l.details ++ (")".toList ++ (l.between ++ (l.location ++ l.rest))))))) := by
    simp only [body, front, List.append_assoc]
  rw [hbody]
  exact tryPatterns_report l.kind l.controller_digits l.count_digits (by simp [U.isWord_ascii])

/-- The body begins with the word of the report. -/
theorem exists_body : ∃ tail, l.body = 'E' :: 'D' :: 'A' :: 'C' :: tail := by
  have hpre : "EDAC".toList <+: l.body := by
    simp only [body, front, reportText_eq, List.append_assoc]
    exact List.prefix_append _ _
  obtain ⟨tail, htail⟩ := hpre
  exact ⟨tail, by simpa using htail.symm⟩

/-- The start of the line is taken off. -/
theorem cleanLine_text : cleanLine U l.text = l.body := by
  obtain ⟨tail, htail⟩ := l.exists_body
  rw [text, htail, LinePrefix.cleanLine_append]

/-- Its time is that of the start. -/
theorem extractTimestamp_text : (extractTimestamp U l.text).1 = l.start.seconds := by
  obtain ⟨tail, htail⟩ := l.exists_body
  rw [text, htail, LinePrefix.extractTimestamp_append]

end EdacLine

end Line

/-! ## No newline in a line -/

section Newlines

variable {U : CharTables}

/-- Digits are on one line. -/
theorem newline_notMem_digits {d : Text} (hd : ∀ c ∈ d, U.isDigit c = true) : '\n' ∉ d := by
  intro hmem
  have hdigit := hd '\n' hmem
  simp [U.isDigit_ascii] at hdigit

/-- So is the start. -/
theorem newline_notMem_start (p : LinePrefix U) : '\n' ∉ p.text := by
  cases p with
  | monotonic blanks whole fraction hwhole hfraction =>
      simp [LinePrefix.text, secondsText, newline_notMem_digits hwhole.2,
        newline_notMem_digits hfraction.2]
  | syslog s =>
      have hmonth : '\n' ∉ s.month := by
        intro hmem
        have hword := s.month_word '\n' hmem
        simp [U.isWord_ascii] at hword
      have hhost : '\n' ∉ s.host := by
        intro hmem
        have hdark := s.host_dark '\n' hmem
        cases hdark
      simp [LinePrefix.text, SyslogStamp.time, hmonth, hhost, newline_notMem_digits s.hour_digits,
        newline_notMem_digits s.minute_digits, newline_notMem_digits s.second_digits,
        newline_notMem_digits s.day_digits.2]
  | stripped => simp [LinePrefix.text]

/-- And the whole report. -/
theorem newline_notMem_text (l : EdacLine U) : '\n' ∉ l.text := by
  have hdigit : U.isDigit '\n' = false := by simp [U.isDigit_ascii]
  have hreport : '\n' ∉ reportText l.controller l.count l.kind.word :=
    notMem_reportText l.controller_digits l.count_digits hdigit (by decide)
  have hdetails : '\n' ∉ l.details :=
    notMem_detailText l.mc_digits l.page_digits l.offset_digits l.grain_digits
      l.syndrome_digits hdigit (by decide) (by decide)
  have hlocation : '\n' ∉ l.location := by
    simp [EdacLine.location, locationText_eq, newline_notMem_digits l.row_digits.2,
      newline_notMem_digits l.channel_digits.2]
  simp [EdacLine.text, EdacLine.body, EdacLine.front, newline_notMem_start, hreport, hdetails,
    hlocation, l.label_plain.2.2, l.between_plain, l.rest_plain]

/-- Every line of the log is one line. -/
theorem LogLine.newline_notMem (x : LogLine U) : '\n' ∉ x.text := by
  cases x with
  | edac l => exact newline_notMem_text l
  | filler f => exact f.plain

/-- A log without lines is empty. -/
@[simp] theorem logText_nil : logText ([] : List (LogLine U)) = [] := rfl

/-- One line stands by itself. -/
@[simp] theorem logText_singleton (x : LogLine U) : logText [x] = x.text := by
  simp [logText]

/-- Between two lines stands a newline. -/
theorem logText_cons_cons (x y : LogLine U) (log : List (LogLine U)) :
    logText (x :: y :: log) = x.text ++ '\n' :: logText (y :: log) := by
  simp [logText, List.intercalate_cons_cons]

/-- The lines of a file are those of the log; only an empty last one is not there. -/
theorem readlines_logText_cons (x : LogLine U) (log : List (LogLine U)) :
    (∃ line, rstripNewline line = x.text ∧
      readlines (logText (x :: log)) = line :: readlines (logText log)) ∨
    (x.text = [] ∧ log = [] ∧ readlines (logText (x :: log)) = []) := by
  cases log with
  | nil =>
      rw [logText_singleton]
      by_cases hx : x.text = []
      · exact Or.inr ⟨hx, rfl, by rw [hx]; rfl⟩
      · exact Or.inl ⟨x.text, rstripNewline_of_plain x.newline_notMem,
          readlines_of_plain x.newline_notMem hx⟩
  | cons y log =>
      refine Or.inl ⟨x.text ++ ['\n'], rstripNewline_append_newline x.newline_notMem, ?_⟩
      rw [logText_cons_cons, readlines_append_newline x.newline_notMem]

end Newlines

/-! ## Runs -/

section Runs

variable {U : CharTables}

/-- What is left of a text when only white space is stripped. -/
theorem isPySpace_of_strip_eq_nil {text : Text} (h : strip text = []) :
    ∀ c ∈ text, isPySpace c = true := by
  have hright : ∀ c ∈ (text.dropWhile isPySpace).reverse, isPySpace c = true := by
    rw [← List.dropWhile_eq_nil_iff, ← List.reverse_eq_nil_iff]
    exact h
  intro c hc
  rw [← List.takeWhile_append_dropWhile (p := isPySpace) (l := text)] at hc
  rcases List.mem_append.mp hc with hc | hc
  · exact List.mem_takeWhile_imp hc
  · exact hright c (List.mem_reverse.mpr hc)

/-- A report is found as one of its type. -/
theorem lineReport_edac (l : EdacLine U) {line : Text} (hline : rstripNewline line = l.text) :
    ∃ m, lineReport U line = some (.edac l.kind.type m) ∧
      m.groups = reportGroups l.controller l.count := by
  obtain ⟨m, hm, hgroups⟩ := l.tryPatterns_body
  obtain ⟨tail, htail⟩ := l.exists_body
  refine ⟨m, ?_, hgroups⟩
  have hdark : strip l.text ≠ [] := by
    intro hblank
    have hE := isPySpace_of_strip_eq_nil hblank 'E' (by simp [EdacLine.text, htail])
    cases hE
  rw [lineReport, hline, if_neg hdark, l.cleanLine_text, hm]

/-- Any other line is no report. -/
theorem lineReport_filler (f : Filler U) {line : Text} (hline : rstripNewline line = f.text) :
    lineReport U line = none := by
  have hedac : tryEdac U (cleanLine U f.text) = none := by
    simp [tryEdac, f.no_ce, f.no_ue]
  have haer : tryAer U (cleanLine U f.text) = none := by
    simp [tryAer, f.no_aer_corrected, f.no_aer_uncorrected]
  have hmce : tryMce U (cleanLine U f.text) = none := by simp [tryMce, f.no_mce]
  rw [lineReport, hline, tryPatterns, hedac, haer, hmce]
  simp

/-- **An EDAC line** gives the event it describes, exactly when its numbers are converted;
the lines after it do not matter. -/
theorem reportEvent_edac (l : EdacLine U) (seq : Nat) (following : List Text) {m : Match}
    (hm : m.groups = reportGroups l.controller l.count) :
    (l.Converts ↔ ∃ e, reportEvent U seq l.text following (.edac l.kind.type m) = .ok e) ∧
    ∀ e, reportEvent U seq l.text following (.edac l.kind.type m) = .ok e →
      e.reading = l.reading seq := by
  obtain ⟨found, hfound, hplace⟩ := l.search_location (lookAheadEdacLocation U following)
  have hdetails := l.edacDetails_body (lookAheadEdacLocation U following)
  have hrow : found.groups 1 = some l.row := by rw [hplace]; rfl
  have hchannel : found.groups 2 = some l.channel := by rw [hplace]; rfl
  have hcount : m.groups 2 = some l.count := by rw [hm]; rfl
  have hcontroller : m.groups 1 = some ("MC".toList ++ l.controller) := by rw [hm]; rfl
  have hpage : detailGroups l.page l.offset l.grain l.syndrome 1 = some l.page := rfl
  have hoffset : detailGroups l.page l.offset l.grain l.syndrome 2 = some l.offset := rfl
  have hgrain : detailGroups l.page l.offset l.grain l.syndrome 3 = some l.grain := rfl
  have hsyndrome : detailGroups l.page l.offset l.grain l.syndrome 4 = some l.syndrome := rfl
  simp only [reportEvent, makeEdacEvent_eq_ok, l.cleanLine_text, l.extractTimestamp_text,
    List.append_assoc, hfound, hdetails, hcount, hcontroller, hrow, hchannel, hpage, hoffset,
    hgrain, hsyndrome, Option.map_some, Option.getD_some, Option.mem_def, Option.some.injEq,
    forall_eq']
  constructor
  · constructor
    · intro h
      obtain ⟨ns, hns⟩ := l.start.converts_iff.mp h.start
      exact ⟨_, h.count, h.grain, h.row, h.channel, ns, hns, rfl⟩
    · intro ⟨e, hlen, hg, hr, hc, ns, hns, _⟩
      exact ⟨hlen, hg, hr, hc, l.start.converts_iff.mpr ⟨ns, hns⟩⟩
  · intro e ⟨_, _, _, _, ns, _, he⟩
    rw [he]
    rfl

end Runs

section Logs

variable {U : CharTables}

/-- Such a line adds no event. -/
theorem allEvents_filler (f : Filler U) {line : Text} (hline : rstripNewline line = f.text)
    (seq : Nat) (following : List Text) :
    allEvents U seq (line :: following) = allEvents U seq following :=
  allEvents_of_silent (lineReport_filler f hline)

/-- The events are those the lines describe, numbered from `seq`. -/
def Describes (seq : Nat) (events : List HardwareEvent) (lines : List (EdacLine U)) : Prop :=
  events.map HardwareEvent.reading = lines.mapIdx fun i l => l.reading (seq + i)

/-- Events describe reports one by one. -/
theorem describes_cons {seq : Nat} {e : HardwareEvent} {events : List HardwareEvent}
    {l : EdacLine U} {lines : List (EdacLine U)} :
    Describes seq (e :: events) (l :: lines) ↔
      e.reading = l.reading seq ∧ Describes (seq + 1) events lines := by
  have hshift : (fun i (l : EdacLine U) => l.reading (seq + (i + 1))) =
      fun i l => l.reading (seq + 1 + i) := by
    funext i l
    rw [Nat.add_right_comm, Nat.add_assoc]
  rw [Describes, Describes, List.map_cons, List.mapIdx_cons, List.cons.injEq, Nat.add_zero, hshift]

/-- One EDAC line in front of the rest of the log. -/
theorem exists_events_edac_iff (l : EdacLine U) {line : Text} (hline : rstripNewline line = l.text)
    (seq : Nat) (following : List Text) (lines : List (EdacLine U)) :
    (∃ events, allEvents U seq (line :: following) = .ok events ∧
        Describes seq events (l :: lines)) ↔
      l.Converts ∧ ∃ events, allEvents U (seq + 1) following = .ok events ∧
        Describes (seq + 1) events lines := by
  obtain ⟨m, hreport, hgroups⟩ := lineReport_edac l hline
  obtain ⟨hconverts, hreading⟩ := reportEvent_edac l seq following hgroups
  rw [allEvents_of_report hreport, hline]
  constructor
  · intro ⟨events, hrun, hdescribes⟩
    obtain ⟨e, he, hrest⟩ := bind_eq_ok.mp hrun
    obtain ⟨rest, hall, hsame⟩ := bind_eq_ok.mp hrest
    obtain rfl := Except.ok.inj hsame
    exact ⟨hconverts.mpr ⟨e, he⟩, rest, hall, (describes_cons.mp hdescribes).2⟩
  · intro ⟨hl, rest, hall, hdescribes⟩
    obtain ⟨e, he⟩ := hconverts.mp hl
    refine ⟨e :: rest, ?_, describes_cons.mpr ⟨hreading e he, hdescribes⟩⟩
    rw [he, hall]
    rfl

/-- The log is read as it is written exactly when all numbers are converted. -/
theorem exists_events_iff (log : List (LogLine U)) (seq : Nat) :
    (∃ events, allEvents U seq (readlines (logText log)) = .ok events ∧
        Describes seq events (edacLines log)) ↔
      ∀ l ∈ edacLines log, l.Converts := by
  induction log generalizing seq with
  | nil => simp [readlines, allEvents, edacLines, Describes]
  | cons x log ih =>
      rcases readlines_logText_cons x log with ⟨line, hline, hlines⟩ | ⟨hx, rfl, hlines⟩
      · rw [hlines]
        cases x with
        | edac l =>
            have hsplit : edacLines (.edac l :: log) = l :: edacLines log := rfl
            rw [hsplit, exists_events_edac_iff l hline, ih, List.forall_mem_cons]
        | filler f =>
            have hsplit : edacLines (.filler f :: log) = edacLines log := rfl
            rw [hsplit, allEvents_filler f hline, ih]
      · rw [hlines]
        cases x with
        | edac l =>
            obtain ⟨tail, htail⟩ := l.exists_body
            simp [LogLine.text, EdacLine.text, htail] at hx
        | filler f => simp [allEvents, edacLines, Describes]

end Logs

/-- **Exactness.**  A log of fully specified EDAC lines among lines without a report is
parsed into the events it describes, one for each EDAC line and in their order, exactly when
Python converts the numbers of every EDAC line. -/
theorem parseFile_exact_iff (U : CharTables) (log : List (LogLine U)) :
    (∃ events, (TraceParser.new none).parseFile U (logText log) = .ok events ∧
        events.map HardwareEvent.reading = (edacLines log).mapIdx fun i l => l.reading i) ↔
      ∀ l ∈ edacLines log, l.Converts := by
  have hdescribes : ∀ events : List HardwareEvent, Describes 0 events (edacLines log) ↔
      events.map HardwareEvent.reading = (edacLines log).mapIdx fun i l => l.reading i := by
    intro events
    simp only [Describes, Nat.zero_add]
  simp only [parseFile_new_none, ← hdescribes]
  exact exists_events_iff log 0

/-- A row of nines is a number. -/
theorem nines_digits {n : Nat} (hn : 0 < n) : asciiTables.Digits (List.replicate n '9') := by
  constructor
  · rw [ne_eq, List.replicate_eq_nil_iff]
    omega
  · intro c hc
    rw [List.eq_of_mem_replicate hc]
    rfl

/-- A line whose timestamp has 310 digits before the point. -/
def overlongLine : EdacLine asciiTables where
  start := .monotonic 0 (List.replicate 310 '9') ['0'] (nines_digits (by omega))
    (CharTables.digits_of_all (by simp) rfl)
  controller := ['0']
  count := ['1']
  kind := .ce
  label := "DIMM_A1".toList
  mc := ['0']
  page := "12ab".toList
  offset := ['0']
  grain := ['8']
  syndrome := ['1']
  between := [' ']
  row := ['0']
  channel := ['1']
  rest := []
  controller_digits := CharTables.digits_of_all (by simp) rfl
  count_digits := CharTables.digits_of_all (by simp) rfl
  label_plain := by decide
  label_free := by decide
  mc_digits := CharTables.digits_of_all (by simp) rfl
  page_digits := hexDigits_of_all (by simp) (by decide)
  offset_digits := hexDigits_of_all (by simp) (by decide)
  grain_digits := CharTables.digits_of_all (by simp) rfl
  syndrome_digits := hexDigits_of_all (by simp) (by decide)
  between_plain := by decide
  between_free := by decide +kernel
  row_digits := CharTables.digits_of_all (by simp) rfl
  channel_digits := CharTables.digits_of_all (by simp) rfl
  rest_plain := by decide
  rest_stops := by simp

/-- Its log is not parsed at all. -/
theorem overlong_timestamp_not_parsed :
    ¬ ∃ events, (TraceParser.new none).parseFile asciiTables (logText [.edac overlongLine]) =
          .ok events ∧
        events.map HardwareEvent.reading =
          (edacLines [.edac overlongLine]).mapIdx fun i l => l.reading i := by
  intro ⟨events, hrun, hreadings⟩
  have hinf : (asciiTables.parseFloat (secondsText (List.replicate 310 '9') ['0'])).mulPos
      1000000000 = .inf false := by
    decide +kernel
  have hconverts : ∀ l ∈ edacLines [LogLine.edac overlongLine], l.Converts := by
    rw [← exists_events_iff _ 0]
    refine ⟨events, by rw [← parseFile_new_none, hrun], ?_⟩
    simpa only [Describes, Nat.zero_add] using hreadings
  obtain ⟨q, hq⟩ := (hconverts overlongLine (by simp [edacLines])).start
  rw [hinf] at hq
  cases hq

end FaultOracle.Trace
