import FaultOracle.DmesgTable

/-!
# One log in two readers

A line that the dmesg watcher takes for an EDAC, MCE or AER event should become an event of
the same kind when the trace parser replays it.  `same_story_iff` says when it does.

Of the patterns of the watcher only that of an MCE is one which the parser has to find again.
The parser removes the timestamp first, and possibly a syslog prefix behind it; neither can
take a part of that text away (`mceText_cleanLine`).
-/

namespace FaultOracle.Dmesg

open BacktrackingRegex PythonFloats FaultOracle.Trace
open FaultOracle.Remediation (isPySpace strip)

/-! ## The same events -/

/-- The event of the parser for one of the watcher. -/
def DmesgType.replayed : DmesgType → Option EventType
  | .edacCe => some .ce
  | .edacUe => some .ue
  | .mce => some .mce
  | .pcieAerCorrectable => some .aerCe
  | .pcieAerNonfatal => some .aerUe
  | .pcieAerFatal => some .aerUe
  | _ => none

/-- The parser, wherever it stands in a log, makes an event of the type from the line. -/
def Replays (U : CharTables) (line : Text) (following : List Text) (t : EventType) : Prop :=
  ∀ p : TraceParser, ∃ e p', p.parseLine U line following = .ok (some e, p') ∧ e.eventType = t

/-- What the watcher takes the line for is replayed. -/
def SameStory (U : CharTables) (now : ℚ) (line : Text) (following : List Text) : Prop :=
  ∀ event ∈ parseDmesgLine U now line, ∀ t ∈ event.eventType.replayed,
    Replays U line following t

/-- The digits which the parser converts for a line that tells a type. -/
def converted (U : CharTables) (line : Text) (following : List Text) : EventType → List Text
  | .ce => ((reEdacCe U).search (cleanLine U line)).toList.flatMap fun m =>
      intLiterals U line following (.edac .ce m)
  | .ue => ((reEdacUe U).search (cleanLine U line)).toList.flatMap fun m =>
      intLiterals U line following (.edac .ue m)
  | _ => []

/-- The line, without its prefix, tells the type of event that the watcher takes it for, and
its numbers can be converted. -/
def Readable (U : CharTables) (now : ℚ) (line : Text) (following : List Text) : Prop :=
  ∀ event ∈ parseDmesgLine U now line, ∀ t ∈ event.eventType.replayed,
    Tells U (cleanLine U line) t ∧
      (∀ d ∈ converted U line following t, d.length ≤ maxStrDigits) ∧ FiniteNanoseconds U line

/-! ## What a line tells -/

section Telling

variable {U : CharTables} {line : Text} {t : EventType}

/-- Every line tells some type. -/
theorem exists_tells (U : CharTables) (clean : Text) : ∃ t, Tells U clean t := by
  by_cases hce : CeCount U clean
  · exact ⟨.ce, hce⟩
  by_cases hue : UeCount U clean
  · exact ⟨.ue, hce, hue⟩
  by_cases hcorrected : Corrected U clean
  · exact ⟨.aerCe, hce, hue, hcorrected⟩
  by_cases huncorrected : Uncorrected U clean
  · exact ⟨.aerUe, hce, hue, hcorrected, huncorrected⟩
  · exact ⟨.mce, hce, hue, hcorrected, huncorrected⟩

/-- The report of a line has the type that the line tells. -/
theorem report_of_tells (following : List Text) (h : Tells U (cleanLine U line) t) {r : Report}
    (hr : tryPatterns U (cleanLine U line) = some r) :
    reportType r = t ∧ intLiterals U line following r = converted U line following t := by
  cases t with
  | ce =>
      obtain ⟨m, hm, hedac⟩ := tryEdac_ce h
      rw [tryPatterns, hedac] at hr
      obtain rfl : .edac .ce m = r := Option.some.inj hr
      simp [reportType, converted, Option.mem_def.mp hm]
  | ue =>
      obtain ⟨hce, hue⟩ := h
      obtain ⟨m, hm⟩ := Option.isSome_iff_exists.mp (ueCount_iff.mp hue)
      rw [tryPatterns, tryEdac_ue hce, hm] at hr
      obtain rfl : .edac .ue m = r := Option.some.inj hr
      simp [reportType, converted, hm]
  | aerCe =>
      obtain ⟨hce, hue, hcorrected⟩ := h
      obtain ⟨m, hm⟩ := Option.isSome_iff_exists.mp (corrected_iff.mp hcorrected)
      rw [tryPatterns_no_count hce hue, tryAer_eq, hm] at hr
      obtain rfl := Option.some.inj hr
      exact ⟨rfl, rfl⟩
  | aerUe =>
      obtain ⟨hce, hue, hcorrected, huncorrected⟩ := h
      obtain ⟨m, hm⟩ := Option.isSome_iff_exists.mp (uncorrected_iff.mp huncorrected)
      have hnone := Option.not_isSome_iff_eq_none.mp (mt corrected_iff.mpr hcorrected)
      rw [tryPatterns_no_count hce hue, tryAer_eq, hnone, hm] at hr
      obtain rfl := Option.some.inj hr
      exact ⟨rfl, rfl⟩
  | mce =>
      obtain ⟨hce, hue, hcorrected, huncorrected⟩ := h
      have hnone := Option.not_isSome_iff_eq_none.mp (mt corrected_iff.mpr hcorrected)
      have hnone' := Option.not_isSome_iff_eq_none.mp (mt uncorrected_iff.mpr huncorrected)
      rw [tryPatterns_no_count hce hue, tryAer_eq, hnone, hnone'] at hr
      simp only [Option.map_none, Option.none_or, tryMce, Option.ite_none_right_eq_some,
        Option.some.injEq] at hr
      rw [← hr.2]
      exact ⟨rfl, rfl⟩

end Telling

/-! ## The text of an MCE -/

/-- The machine check's text by its words. -/
theorem mceText_eq : mceText =
    "mce:".toList ++ ' ' :: '[' :: "Hardware Error]: Machine check events logged".toList := by
  decide +kernel

section Mce

variable {U : CharTables} {line text : Text}

/-- The text lies behind a token which does not end with its first token. -/
theorem mceText_skip_token {s p q : Text} (h : mceText <:+: s ++ (p ++ q))
    (hs : ∀ c ∈ s, isPySpace c = false) (hp : Spaces p) :
    mceText <:+: p ++ q ∨ ∃ rest, p ++ q = ' ' :: '[' :: rest := by
  obtain ⟨u, v, hsplit⟩ := h
  rw [List.append_assoc] at hsplit
  rcases List.append_eq_append_iff.mp hsplit with ⟨x, rfl, hrest⟩ | ⟨x, _, hb⟩
  · right
    obtain ⟨y, p, rfl⟩ := List.exists_cons_of_ne_nil hp.1
    rw [mceText_eq, List.append_assoc, List.cons_append, List.cons_append] at hrest
    have hfirst : ∀ c ∈ "mce:".toList, (!isPySpace c) = true := by
      rw [← List.all_eq_true]
      decide
    have hx : ∀ c ∈ x, (!isPySpace c) = true := by
      intro c hc
      rw [hs c (List.mem_append_right u hc)]
      rfl
    have hy : (!isPySpace y) = false := by
      rw [hp.2 y List.mem_cons_self]
      rfl
    obtain ⟨_, htail⟩ := span_unique hfirst hx rfl hy hrest
    exact ⟨_, htail.symm⟩
  · exact Or.inl ⟨x, v, by rw [hb, List.append_assoc]⟩

/-- And behind one that is too short for that. -/
theorem mceText_skip_short {s p q : Text} (h : mceText <:+: s ++ (p ++ q)) (hs : s.length ≤ 3)
    (hp : Spaces p) : mceText <:+: p ++ q := by
  obtain ⟨u, v, hsplit⟩ := h
  rw [List.append_assoc] at hsplit
  rcases List.append_eq_append_iff.mp hsplit with ⟨x, rfl, hrest⟩ | ⟨x, _, hb⟩
  · obtain ⟨y, p, rfl⟩ := List.exists_cons_of_ne_nil hp.1
    have hy := hp.2 y List.mem_cons_self
    rw [List.length_append] at hs
    rw [mceText_eq] at hrest
    match x, hs, hrest with
    | [], _, hrest => exact ⟨[], v, hrest⟩
    | [_], _, hrest =>
        have hnext : 'c' = y := (List.cons.inj (List.cons.inj hrest).2).1
        rw [← hnext] at hy
        cases hy
    | [_, _], _, hrest =>
        have hnext : 'e' = y := (List.cons.inj (List.cons.inj (List.cons.inj hrest).2).2).1
        rw [← hnext] at hy
        cases hy
    | [_, _, _], _, hrest =>
        have hnext : ':' = y :=
          (List.cons.inj (List.cons.inj (List.cons.inj (List.cons.inj hrest).2).2).2).1
        rw [← hnext] at hy
        cases hy
    | _ :: _ :: _ :: _ :: _, hs, _ =>
        simp only [List.length_cons] at hs
        omega
  · exact ⟨x, v, by rw [hb, List.append_assoc]⟩

/-- Digits have no letter m. -/
theorem m_notMem_digits {d : Text} (hd : ∀ c ∈ d, U.isDigit c = true) : 'm' ∉ d := by
  intro hmem
  have hdigit := hd 'm' hmem
  rw [U.isDigit_ascii _ (by decide)] at hdigit
  cases hdigit

/-- White space has no letter m. -/
theorem m_notMem_spaces {s : Text} (hs : ∀ c ∈ s, isPySpace c = true) : 'm' ∉ s := by
  intro hmem
  have hspace := hs 'm' hmem
  cases hspace

/-- The timestamp in brackets takes nothing away from the text. -/
theorem mceText_removeBracket (h : mceText <:+: text) :
    mceText <:+: (reBracketPrefix U).removeStart text := by
  rw [Re.removeStart, reBracketPrefix, matchStart_atStart]
  split
  · rename_i m hm
    obtain ⟨w, hw, hsplit⟩ := matchFrom_eq_some hm
    simp only [lang_append, lang_lit, lang_plus, lang_star] at hw
    obtain ⟨_, s', ⟨_, _, ⟨_, s, rfl, ⟨_, hs⟩, rfl⟩, rfl, rfl⟩, hs', rfl⟩ := hw
    rw [hsplit] at h
    refine infix_skip h ?_
    simp only [List.mem_append, not_or]
    refine ⟨⟨⟨by decide, ?_⟩, by decide⟩, m_notMem_spaces hs'⟩
    intro hmem
    have hclass := hs 'm' hmem
    rw [U.isDigit_ascii _ (by decide)] at hclass
    cases hclass
  · exact h

/-- Nor does the syslog prefix. -/
theorem mceText_removeSyslog (h : mceText <:+: text) :
    mceText <:+: (reSyslogPrefix U).removeStart text := by
  rw [Re.removeStart, reSyslogPrefix, matchStart_atStart]
  split
  · rename_i m hm
    obtain ⟨w, hw, hsplit⟩ := matchFrom_eq_some hm
    -- from the blanks behind the prefix to the month before it
    obtain ⟨_, p₅, hw, hblank₅, rfl⟩ := hw
    obtain ⟨_, _, hw, hkernel, rfl⟩ := hw
    obtain ⟨_, p₄, hw, hblank₄, rfl⟩ := hw
    obtain ⟨_, s₂, hw, hhost, rfl⟩ := hw
    obtain ⟨_, p₃, ⟨_, _, hw, htime, rfl⟩, hblank₃, rfl⟩ := hw
    obtain ⟨_, p₂, ⟨_, d, ⟨s₁, p₁, hmonth, hblank₁, rfl⟩, hday, rfl⟩, hblank₂, rfl⟩ := hw
    obtain ⟨_, c, ⟨_, _, ⟨_, b, ⟨a, _, hhour, hcolon, rfl⟩, hminute, rfl⟩, hcolon', rfl⟩, hsecond,
      rfl⟩ := htime
    obtain rfl := lang_lit.mp hkernel
    obtain rfl := lang_lit.mp hcolon
    obtain rfl := lang_lit.mp hcolon'
    obtain ⟨hs₁, _⟩ := lang_times.mp hmonth
    have ha := (lang_times.mp hhour).2
    have hb := (lang_times.mp hminute).2
    have hc := (lang_times.mp hsecond).2
    have hd := lang_plus.mp hday
    have hs₂ := lang_plus.mp hhost
    have hp₁ := lang_plus.mp hblank₁
    have hp₂ := lang_plus.mp hblank₂
    have hp₃ := lang_plus.mp hblank₃
    have hp₄ := lang_plus.mp hblank₄
    have hp₅ := lang_star.mp hblank₅
    simp only [List.append_assoc] at hsplit
    rw [hsplit] at h
    -- the month
    replace h := mceText_skip_short h (le_of_eq hs₁) hp₁
    -- the day and the time
    replace h := infix_skip h (m_notMem_spaces hp₁.2)
    replace h := infix_skip h (m_notMem_digits hd.2)
    replace h := infix_skip h (m_notMem_spaces hp₂.2)
    replace h := infix_skip h (m_notMem_digits ha)
    replace h := infix_skip h (by decide)
    replace h := infix_skip h (m_notMem_digits hb)
    replace h := infix_skip h (by decide)
    replace h := infix_skip h (m_notMem_digits hc)
    replace h := infix_skip h (m_notMem_spaces hp₃.2)
    -- the host, behind which `kernel:` follows and no bracket
    have hdark : ∀ c ∈ s₂, isPySpace c = false := by
      intro c hmem
      simpa using hs₂.2 c hmem
    rcases mceText_skip_token h hdark hp₄ with h | ⟨rest, hbracket⟩
    · replace h := infix_skip h (m_notMem_spaces hp₄.2)
      replace h := infix_skip h (by decide)
      exact infix_skip h (m_notMem_spaces hp₅)
    · obtain ⟨y, p₄, rfl⟩ := List.exists_cons_of_ne_nil hp₄.1
      have htail := (List.cons.inj hbracket).2
      cases p₄ with
      | nil => cases (List.cons.inj htail).1
      | cons z p₄ =>
          have hz := hp₄.2 z (by simp)
          rw [(List.cons.inj htail).1] at hz
          cases hz
  · exact h

/-- The parser finds the text. -/
theorem search_reMce (h : mceText <:+: text) : ((reMce U).search text).isSome := by
  have hmce : (U.litIgnoreCase "mce:".toList).Lang "mce:".toList :=
    U.lang_litIgnoreCase (by decide)
  have herror : (U.litIgnoreCase "Hardware Error".toList).Lang "Hardware Error".toList :=
    U.lang_litIgnoreCase (by decide)
  have hplain : (reMce U).Plain := by
    refine ⟨⟨⟨U.plain_litIgnoreCase _, U.plain_litIgnoreCase _, ⟨U.plain_litIgnoreCase _, ?_⟩, ?_⟩,
      trivial⟩, U.plain_litIgnoreCase _⟩ <;> simp
  rw [hplain.search_isSome_iff, occurs_iff_isInfix]
  refine ⟨"mce:".toList ++ [' ', '['] ++ "Hardware Error".toList, ?_, List.IsInfix.trans ?_ h⟩
  · have hblank : (Re.star isDot).Lang [' ', '['] := lang_star.mpr (List.all_eq_true.mp (by decide))
    exact ⟨_, _, ⟨_, _, Or.inl hmce, hblank, rfl⟩, herror, rfl⟩
  · exact ⟨[], "]: Machine check events logged".toList, rfl⟩

/-- What is left after stripping occurs in the text. -/
theorem isInfix_strip (s : Text) : strip s <:+: s := by
  have hback : (s.dropWhile isPySpace).reverse.dropWhile isPySpace <:+
      (s.dropWhile isPySpace).reverse := List.dropWhile_suffix _
  have hfront : strip s <+: s.dropWhile isPySpace := by
    simpa [strip] using hback.reverse
  exact hfront.isInfix.trans (List.dropWhile_suffix _).isInfix

/-- The message is a part of the line. -/
theorem isInfix_message {m : Match} (h : (reKernelLine U).matchStart line = some m) :
    strip ((m.groups 2).getD []) <:+: line := by
  rw [reKernelLine, matchStart_atStart] at h
  obtain ⟨t, ht, rfl⟩ := Option.map_eq_some_iff.mp h
  obtain ⟨w, f, hw, hline, hgroups⟩ := mem_run_captures (List.mem_of_mem_head? ht)
  simp only [captures_append, captures_group] at hw
  obtain ⟨u, v, fa, _, _, ⟨_, ⟨_, rfl⟩, rfl⟩, rfl, rfl⟩ := hw
  have hgroup : t.groups 2 = some v := by simp [hgroups]
  refine (isInfix_strip _).trans ?_
  show (t.groups 2).getD [] <:+: line
  rw [hgroup, Option.getD_some]
  exact ⟨u, t.after, hline.symm⟩

/-- The table's pattern of machine checks is a plain text. -/
theorem regex_mce {p : Pattern} (hp : p ∈ patterns U) (hmce : p.eventType = .mce) :
    p.regex = Re.lit mceText := by
  have hentry : ∃ q ∈ patterns U, q.eventType = .mce ∧ q.regex = Re.lit mceText :=
    ⟨_, List.mem_of_getElem? (i := 2) rfl, rfl, rfl⟩
  obtain ⟨q, hq, htype, hregex⟩ := hentry
  rw [eq_of_eventType hp hq (hmce.trans htype.symm), hregex]

/-- What the watcher takes for an MCE has the text of one. -/
theorem mceText_of_event {now : ℚ} {event : DmesgEvent}
    (h : parseDmesgLine U now line = some event) (hmce : event.eventType = .mce) :
    mceText <:+: line := by
  rw [parseDmesgLine_eq] at h
  obtain ⟨message, hmessage, hclassified⟩ := Option.bind_eq_some_iff.mp h
  obtain ⟨m, hm, rfl⟩ := Option.map_eq_some_iff.mp hmessage
  obtain ⟨p, hp, hevent⟩ := List.exists_of_findSome?_eq_some hclassified
  obtain ⟨found, hfound, rfl⟩ := Option.map_eq_some_iff.mp hevent
  obtain ⟨w, hw, hinfix⟩ :=
    (search_isSome_of_mem hp).mp (Option.isSome_iff_exists.mpr ⟨found, hfound⟩)
  rw [regex_mce hp hmce] at hw
  rw [lang_lit.mp hw] at hinfix
  exact hinfix.trans (isInfix_message hm)

/-- And so does the line without its prefix. -/
theorem mceText_cleanLine (h : mceText <:+: line) : mceText <:+: cleanLine U line :=
  mceText_removeSyslog (mceText_removeBracket h)

end Mce

/-! ## Replaying -/

section Replaying

variable {U : CharTables} {line : Text} {following : List Text} {t : EventType}

/-- An event has the type of its report. -/
theorem eventType_of_reportEvent {seq : Nat} {r : Report} {e : HardwareEvent}
    (h : reportEvent U seq line following r = .ok e) : e.eventType = reportType r := by
  cases r with
  | edac type m =>
      obtain ⟨_, _, _, _, ns, _, rfl⟩ := makeEdacEvent_eq_ok.mp h
      rfl
  | aer type device =>
      obtain ⟨ns, _, rfl⟩ := makePlainEvent_eq_ok.mp h
      rfl
  | mce =>
      obtain ⟨ns, _, rfl⟩ := makePlainEvent_eq_ok.mp h
      rfl

/-- A line makes an event of a type, if it reports it and its numbers can be converted. -/
theorem replays_iff_report : Replays U line following t ↔
    ∃ r, tryPatterns U (cleanLine U line) = some r ∧ reportType r = t ∧
      (∀ d ∈ intLiterals U line following r, d.length ≤ maxStrDigits) ∧
        FiniteNanoseconds U line := by
  constructor
  · intro h
    obtain ⟨e, p', hparse, htype⟩ := h (TraceParser.new none)
    unfold TraceParser.parseLine at hparse
    cases hr : tryPatterns U (cleanLine U line) with
    | none =>
        rw [hr] at hparse
        cases hparse
    | some r =>
        rw [hr] at hparse
        cases hevent : reportEvent U (TraceParser.new none).seq line following r with
        | error err =>
            simp only [hevent] at hparse
            cases hparse
        | ok made =>
            simp only [hevent] at hparse
            obtain rfl : made = e := by
              have hpair := Except.ok.inj hparse
              exact Option.some.inj (congrArg Prod.fst hpair)
            have hconverts := (exists_reportEvent_iff _ line following r).mp ⟨made, hevent⟩
            exact ⟨r, rfl, (eventType_of_reportEvent hevent).symm.trans htype, hconverts⟩
  · intro ⟨r, hr, htype, hconverts⟩ p
    obtain ⟨e, he⟩ := (exists_reportEvent_iff p.seq line following r).mpr hconverts
    refine ⟨e, p.after r, ?_, (eventType_of_reportEvent he).trans htype⟩
    rw [TraceParser.parseLine, hr]
    simp only [he]
    rfl

/-- A line that tells a type is reported, an MCE if its text is there. -/
theorem reported_of_tells (h : Tells U (cleanLine U line) t)
    (hmce : t = .mce → mceText <:+: cleanLine U line) :
    ∃ r, tryPatterns U (cleanLine U line) = some r := by
  rw [← Option.isSome_iff_exists]
  cases t with
  | ce =>
      obtain ⟨m, _, hedac⟩ := tryEdac_ce h
      rw [tryPatterns, hedac]
      rfl
  | ue =>
      obtain ⟨m, hm⟩ := Option.isSome_iff_exists.mp (ueCount_iff.mp h.2)
      rw [tryPatterns, tryEdac_ue h.1, hm]
      rfl
  | aerCe =>
      obtain ⟨m, hm⟩ := Option.isSome_iff_exists.mp (corrected_iff.mp h.2.2)
      rw [tryPatterns_no_count h.1 h.2.1, tryAer_eq, hm]
      rfl
  | aerUe =>
      obtain ⟨m, hm⟩ := Option.isSome_iff_exists.mp (uncorrected_iff.mp h.2.2.2)
      have hnone := Option.not_isSome_iff_eq_none.mp (mt corrected_iff.mpr h.2.2.1)
      rw [tryPatterns_no_count h.1 h.2.1, tryAer_eq, hnone, hm]
      rfl
  | mce =>
      rw [tryPatterns_no_count h.1 h.2.1, tryMce, if_pos (search_reMce (hmce rfl)),
        Option.isSome_or]
      exact Bool.or_true _

/-- A line replays as a type exactly when it tells it and its numbers convert. -/
theorem replays_iff (hmce : t = .mce → mceText <:+: cleanLine U line) :
    Replays U line following t ↔ Tells U (cleanLine U line) t ∧
      (∀ d ∈ converted U line following t, d.length ≤ maxStrDigits) ∧ FiniteNanoseconds U line := by
  rw [replays_iff_report]
  constructor
  · intro ⟨r, hr, htype, hshort, hfinite⟩
    obtain ⟨told, htold⟩ := exists_tells U (cleanLine U line)
    obtain ⟨hsame, hliterals⟩ := report_of_tells following htold hr
    obtain rfl : told = t := hsame.symm.trans htype
    exact ⟨htold, hliterals ▸ hshort, hfinite⟩
  · intro ⟨htells, hshort, hfinite⟩
    obtain ⟨r, hr⟩ := reported_of_tells htells hmce
    obtain ⟨htype, hliterals⟩ := report_of_tells following htells hr
    exact ⟨r, hr, htype, hliterals ▸ hshort, hfinite⟩

end Replaying

/-- **The same story.**  What the watcher takes a line for is replayed, if and only if the
line is readable. -/
theorem same_story_iff (U : CharTables) (now : ℚ) (line : Text) (following : List Text) :
    SameStory U now line following ↔ Readable U now line following := by
  refine forall₂_congr fun event hevent => forall₂_congr fun t ht => replays_iff ?_
  intro hmce
  have htype : event.eventType = .mce := by
    rw [hmce] at ht
    cases htype : event.eventType <;> rw [htype] at ht <;> cases ht
  exact mceText_cleanLine (mceText_of_event hevent htype)

/-- A fatal error with no device named behind it. -/
def fatalLine : Text := "[  300.0] pcieport 0000:00:01.0: AER: Uncorrected (Fatal) error".toList

/-- The watcher takes it for one, the parser finds nothing. -/
theorem fatal_not_replayed :
    (parseDmesgLine asciiTables 0 fatalLine).map DmesgEvent.eventType = some .pcieAerFatal ∧
      ¬ SameStory asciiTables 0 fatalLine [] := by
  have hwatched : (parseDmesgLine asciiTables 0 fatalLine).map DmesgEvent.eventType =
      some .pcieAerFatal := by decide +kernel
  have hsilent : (tryPatterns asciiTables (cleanLine asciiTables fatalLine)).isNone = true := by
    decide +kernel
  refine ⟨hwatched, ?_⟩
  intro h
  obtain ⟨event, hevent, htype⟩ := Option.map_eq_some_iff.mp hwatched
  have hreplays := h event hevent .aerUe (by rw [htype]; rfl)
  obtain ⟨r, hr, _⟩ := replays_iff_report.mp hreplays
  rw [hr] at hsilent
  cases hsilent

end FaultOracle.Dmesg
