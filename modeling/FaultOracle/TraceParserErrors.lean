import FaultOracle.TraceParserRuns

/-!
# When the trace parser raises

`parse_file` converts numbers of two kinds: the digits which its patterns capture, and the
nanoseconds of a monotonic timestamp.  The latter are `int` of a float which may be infinite,
so that one line stops the parse of the whole log.

`parseFile_returns_iff`: as long as `int` takes the digits, the parser returns exactly when
the nanoseconds of every line which reports an event are a finite double.
-/

namespace FaultOracle.Trace

open BacktrackingRegex PythonFloats
open CheckedLoops (bind_eq_ok)

variable (U : CharTables)

/-- The decimal digits given to `int` for what a line reports. -/
def intLiterals (line : Text) (following : List Text) : Report → List Text
  | .edac _ m =>
      let combined := cleanLine U line ++ " ".toList ++ lookAheadEdacLocation U following
      let location := (reEdacLocation U).search combined
      (m.groups 2).getD [] :: (edacDetails U combined 3).toList ++
        location.toList.flatMap fun l => [(l.groups 1).getD [], (l.groups 2).getD []]
  | _ => []

/-- The decimal digits given to `int` for the lines of a file. -/
def convertedLiterals : List Text → List Text
  | [] => []
  | line :: following =>
      match lineReport U line with
      | none => convertedLiterals following
      | some r => intLiterals U (rstripNewline line) following r ++ convertedLiterals following

/-- The nanoseconds of a monotonic timestamp, if the line has one, are a finite double. -/
def FiniteNanoseconds (line : Text) : Prop :=
  ∀ m ∈ (reMonotonic U).matchStart line,
    ∃ q, (U.parseFloat ((m.groups 1).getD [])).mulPos 1000000000 = .fin q

section Errors

variable {U}

theorem exists_lineNs_iff (line : Text) :
    (∃ ns, timestampNs (extractTimestamp U line).1 = .ok ns) ↔ FiniteNanoseconds U line := by
  unfold extractTimestamp FiniteNanoseconds
  cases hm : (reMonotonic U).matchStart line with
  | some m =>
      simp only [exists_timestampNs_iff, Option.mem_def, Option.some.injEq, forall_eq']
  | none =>
      refine iff_of_true ?_ (fun m h => absurd h (by simp))
      cases (reSyslogTs U).matchStart line <;> exact ⟨0, rfl⟩

/-- **A report** becomes an event exactly when its digits and its timestamp are converted. -/
theorem exists_reportEvent_iff (seq : Nat) (line : Text) (following : List Text) (r : Report) :
    (∃ e, reportEvent U seq line following r = .ok e) ↔
      (∀ d ∈ intLiterals U line following r, d.length ≤ maxStrDigits) ∧
        FiniteNanoseconds U line := by
  have hplain : ∀ type subsystem device aerType,
      (∃ e, makePlainEvent seq type subsystem device aerType line (extractTimestamp U line) =
        .ok e) ↔ FiniteNanoseconds U line := by
    intro type subsystem device aerType
    rw [← exists_lineNs_iff]
    constructor
    · intro h
      obtain ⟨e, he⟩ := h
      obtain ⟨ns, hns, _⟩ := makePlainEvent_eq_ok.mp he
      exact ⟨ns, hns⟩
    · intro h
      obtain ⟨ns, hns⟩ := h
      exact ⟨_, makePlainEvent_eq_ok.mpr ⟨ns, hns, rfl⟩⟩
  cases r with
  | aer type device =>
      simpa [intLiterals, reportEvent, makeAerEvent] using hplain type "AER" _ _
  | mce => simpa [intLiterals, reportEvent, makeMceEvent] using hplain .mce "MCE" none none
  | edac type m =>
      simp only [reportEvent, makeEdacEvent_eq_ok, intLiterals, List.mem_append, List.mem_cons,
        Option.mem_toList, List.mem_flatMap, List.not_mem_nil, or_false]
      rw [← exists_lineNs_iff]
      constructor
      · intro h
        obtain ⟨e, hcount, hgrain, hrow, hchannel, ns, hns, _⟩ := h
        refine ⟨?_, ns, hns⟩
        rintro d ((rfl | hd) | ⟨l, hl, rfl | rfl⟩)
        · exact hcount
        · exact hgrain d hd
        · exact hrow l hl
        · exact hchannel l hl
      · intro h
        obtain ⟨hshort, ns, hns⟩ := h
        exact ⟨_, hshort _ (Or.inl (Or.inl rfl)), fun g hg => hshort g (Or.inl (Or.inr hg)),
          fun l hl => hshort _ (Or.inr ⟨l, hl, Or.inl rfl⟩),
          fun l hl => hshort _ (Or.inr ⟨l, hl, Or.inr rfl⟩), ns, hns, rfl⟩

/-- The events of a log can all be made exactly when those of its lines can. -/
theorem exists_allEvents_iff (seq : Nat) (lines : List Text) :
    (∃ events, allEvents U seq lines = .ok events) ↔
      (∀ d ∈ convertedLiterals U lines, d.length ≤ maxStrDigits) ∧
        ∀ line ∈ lines, (lineReport U line).isSome → FiniteNanoseconds U (rstripNewline line) := by
  induction lines generalizing seq with
  | nil => simp [allEvents, convertedLiterals]
  | cons line following ih =>
      cases hr : lineReport U line with
      | none => simp [allEvents_of_silent hr, ih, convertedLiterals, hr]
      | some r =>
          have hevent := exists_reportEvent_iff (U := U) seq (rstripNewline line) following r
          have hrest := ih (seq + 1)
          have hsplit : (∃ events, allEvents U seq (line :: following) = .ok events) ↔
              (∃ e, reportEvent U seq (rstripNewline line) following r = .ok e) ∧
                ∃ events, allEvents U (seq + 1) following = .ok events := by
            rw [allEvents_of_report hr]
            constructor
            · intro h
              obtain ⟨events, hrun⟩ := h
              obtain ⟨e, he, hrun⟩ := bind_eq_ok.mp hrun
              obtain ⟨rest, hall, _⟩ := bind_eq_ok.mp hrun
              exact ⟨⟨e, he⟩, rest, hall⟩
            · intro h
              obtain ⟨⟨e, he⟩, rest, hall⟩ := h
              exact ⟨e :: rest, bind_eq_ok.mpr ⟨e, he, bind_eq_ok.mpr ⟨rest, hall, rfl⟩⟩⟩
          rw [hsplit, hevent, hrest, convertedLiterals, hr, List.forall_mem_append,
            List.forall_mem_cons]
          simp only [hr, Option.isSome_some, forall_const]
          exact and_and_and_comm

end Errors

/-- **No exception.**  When `int` takes the digits it is given, `parse_file` returns a list of
events exactly when every line that reports an event has no monotonic timestamp or one whose
nanoseconds are a finite double. -/
theorem parseFile_returns_iff (types : Option (List String)) (text : Text)
    (hshort : ∀ d ∈ convertedLiterals U (readlines text), d.length ≤ maxStrDigits) :
    (∃ events, (TraceParser.new types).parseFile U text = .ok events) ↔
      ∀ line ∈ readlines text, (lineReport U line).isSome →
        FiniteNanoseconds U (rstripNewline line) := by
  have hall := exists_allEvents_iff (U := U) 0 (readlines text)
  rw [TraceParser.parseFile, parseLines_eq, TraceParser.new_seq]
  cases hrun : allEvents U 0 (readlines text) with
  | ok events =>
      have hevents := hall.mp ⟨events, hrun⟩
      exact iff_of_true ⟨_, rfl⟩ hevents.2
  | error err =>
      refine iff_of_false ?_ (fun hlines => ?_)
      · intro hreturns
        obtain ⟨events, h⟩ := hreturns
        cases h
      · obtain ⟨events, h⟩ := hall.mpr ⟨hshort, hlines⟩
        rw [hrun] at h
        cases h

/-- A report behind a timestamp of 310 digits. -/
def overlongMce : Text :=
  "[".toList ++ List.replicate 310 '9' ++ ".0] mce: [Hardware Error]: Machine check\n".toList

/-- It has no digits for `int`, and stops the parse. -/
theorem overlongMce_raises : convertedLiterals asciiTables (readlines overlongMce) = [] ∧
    (TraceParser.new none).parseFile asciiTables overlongMce = .error .overflowError := by
  decide +kernel

/-- An EDAC line with a location on the line after it. -/
def splitReport : Text :=
  "[ 12.5] EDAC MC0: 3 CE memory error (page:0x1 grain:8)\ncsrow:1 channel:0\n".toList

theorem splitReport_returns :
    (∃ events, (TraceParser.new none).parseFile asciiTables splitReport = .ok events) ↔
      ∀ line ∈ readlines splitReport, (lineReport asciiTables line).isSome →
        FiniteNanoseconds asciiTables (rstripNewline line) :=
  parseFile_returns_iff asciiTables none splitReport (by decide +kernel)

end FaultOracle.Trace
