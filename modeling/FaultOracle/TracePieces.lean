import FaultOracle.TraceParserRuns

/-!
# Parsing a log in pieces

A report looks for its annotation on the lines after it, at most five of them.  So a log can be
cut after five lines which report nothing: `parseFile_append` gives the events of the whole from
those of the pieces, with the numbers of the second piece continued from the first.
-/

namespace FaultOracle.Trace

open PythonFloats BacktrackingRegex

variable (U : CharTables)

/-- The event under a later number. -/
def HardwareEvent.renumber (n : Nat) (e : HardwareEvent) : HardwareEvent :=
  { e with seq := e.seq + n }

/-- The number of lines which report an event, of whatever type. -/
def reports (lines : List Text) : Nat := lines.countP fun l => (lineReport U l).isSome

/-- None of the last five lines reports an event. -/
def EndsQuietly (lines : List Text) : Prop :=
  ∀ l ∈ lines.drop (lines.length - 5), lineReport U l = none

section Pieces

variable {U}

/-! ## Numbers -/

/-- A change of the result, under one more computation. -/
theorem bind_map_congr {ε α β : Type} (x : Except ε α) {f g : α → Except ε β} {h : β → β}
    (hfg : ∀ a, f a = (g a).map h) : (x >>= f) = (x >>= g).map h := by
  cases x with
  | error err => rfl
  | ok a => exact hfg a

theorem makePlainEvent_renumber (seq n : Nat) (type : EventType) (subsystem : String)
    (device aerType : Option Text) (raw : Text) (timestamp : Option PyFloat × Text) :
    makePlainEvent (seq + n) type subsystem device aerType raw timestamp =
      (makePlainEvent seq type subsystem device aerType raw timestamp).map (.renumber n) := by
  exact bind_map_congr _ fun ns => rfl

theorem makeEdacEvent_renumber (seq n : Nat) (type : EventType) (m : Match) (combined raw : Text)
    (timestamp : Option PyFloat × Text) :
    makeEdacEvent U (seq + n) type m combined raw timestamp =
      (makeEdacEvent U seq type m combined raw timestamp).map (.renumber n) := by
  refine bind_map_congr _ fun count => ?_
  refine bind_map_congr _ fun grain => ?_
  refine bind_map_congr _ fun csrow => ?_
  refine bind_map_congr _ fun channel => ?_
  exact bind_map_congr _ fun ns => rfl

/-- The number of an event is all that depends on those before it. -/
theorem reportEvent_renumber (seq n : Nat) (line : Text) (following : List Text) (r : Report) :
    reportEvent U (seq + n) line following r =
      (reportEvent U seq line following r).map (.renumber n) := by
  cases r with
  | edac type m => exact makeEdacEvent_renumber ..
  | aer type device => exact makePlainEvent_renumber ..
  | mce => exact makePlainEvent_renumber ..

theorem allEvents_renumber (seq n : Nat) (lines : List Text) :
    allEvents U (seq + n) lines = (allEvents U seq lines).map (List.map (.renumber n)) := by
  induction lines generalizing seq with
  | nil => rfl
  | cons line following ih =>
      cases hr : lineReport U line with
      | none => rw [allEvents_of_silent hr, allEvents_of_silent hr, ih]
      | some r =>
          rw [allEvents_of_report hr, allEvents_of_report hr, reportEvent_renumber,
            Nat.add_right_comm, ih]
          cases reportEvent U seq (rstripNewline line) following r with
          | error err => rfl
          | ok e => cases allEvents U (seq + 1) following <;> rfl

/-! ## Pieces -/

/-- Five lines are all that a report looks at. -/
theorem reportEvent_append {following : List Text} (h : 5 ≤ following.length) (seq : Nat)
    (line : Text) (more : List Text) (r : Report) :
    reportEvent U seq line (following ++ more) r = reportEvent U seq line following r := by
  have hlocation : lookAheadEdacLocation U (following ++ more) =
      lookAheadEdacLocation U following := by
    rw [lookAheadEdacLocation, lookAheadEdacLocation, List.take_append_of_le_length (by omega)]
  have htype : lookAheadAerType U (following ++ more) = lookAheadAerType U following := by
    rw [lookAheadAerType, lookAheadAerType, List.take_append_of_le_length h]
  cases r <;> simp only [reportEvent, hlocation, htype]

/-- The lines of a log which ends quietly, without the first. -/
theorem EndsQuietly.of_cons {line : Text} {following : List Text}
    (h : EndsQuietly U (line :: following)) :
    EndsQuietly U following ∧ (lineReport U line ≠ none → 5 ≤ following.length) := by
  by_cases hlong : 5 ≤ following.length
  · refine ⟨?_, fun _ => hlong⟩
    have hdrop : (line :: following).drop ((line :: following).length - 5) =
        following.drop (following.length - 5) := by
      rw [List.length_cons, Nat.succ_sub hlong, List.drop_succ_cons]
    rwa [EndsQuietly, hdrop] at h
  · have hall : ∀ l ∈ line :: following, lineReport U l = none := by
      have hshort : (line :: following).length - 5 = 0 := by
        rw [List.length_cons]
        omega
      rwa [EndsQuietly, hshort, List.drop_zero] at h
    exact ⟨fun l hl => hall l (List.mem_cons_of_mem _ (List.mem_of_mem_drop hl)),
      fun hline => absurd (hall line (by simp)) hline⟩

theorem allEvents_append {front : List Text} (h : EndsQuietly U front) (seq : Nat)
    (back : List Text) :
    allEvents U seq (front ++ back) = (do
      let events ← allEvents U seq front
      let more ← allEvents U (seq + reports U front) back
      return events ++ more) := by
  induction front generalizing seq with
  | nil =>
      rw [List.nil_append]
      simp only [allEvents, reports, List.countP_nil, Nat.add_zero]
      cases allEvents U seq back <;> rfl
  | cons line following ih =>
      obtain ⟨hrest, hlong⟩ := h.of_cons
      rw [List.cons_append]
      cases hr : lineReport U line with
      | none =>
          rw [allEvents_of_silent hr, allEvents_of_silent hr, ih hrest, reports, reports,
            List.countP_cons_of_neg (by simp [hr])]
      | some r =>
          rw [allEvents_of_report hr, allEvents_of_report hr, ih hrest,
            reportEvent_append (hlong (by simp [hr])), reports, reports,
            List.countP_cons_of_pos (by simp [hr]), Nat.add_right_comm, Nat.add_assoc]
          cases reportEvent U seq (rstripNewline line) following r with
          | error err => rfl
          | ok e =>
              cases allEvents U (seq + 1) following with
              | error err => rfl
              | ok events =>
                  cases allEvents U _ back <;> rfl

/-- A text which ends with a newline, or is empty. -/
def WholeLines (text : Text) : Prop := ∀ c ∈ text.getLast?, c = '\n'

theorem readlines_ne_nil {text : Text} (h : text ≠ []) : readlines text ≠ [] := by
  obtain ⟨c, rest, rfl⟩ := List.exists_cons_of_ne_nil h
  rw [readlines]
  split
  · simp
  · split <;> simp

theorem readlines_append {front : Text} (h : WholeLines front) (back : Text) :
    readlines (front ++ back) = readlines front ++ readlines back := by
  induction front with
  | nil => rfl
  | cons c rest ih =>
      have hrest : WholeLines rest := by
        intro d hd
        cases rest with
        | nil => cases hd
        | cons c' rest => exact h d (by simpa using hd)
      rw [List.cons_append, readlines, readlines, ih hrest]
      split
      · rfl
      · next hc =>
          -- a line which is not at its end goes on
          have hne : rest ≠ [] := by
            rintro rfl
            exact hc (h c (by simp))
          obtain ⟨l, lines, hlines⟩ := List.exists_cons_of_ne_nil (readlines_ne_nil hne)
          rw [hlines]
          rfl

/-- **A log can be parsed in pieces.**  Cut a log at the end of a line, after five lines which
report nothing.  The parser gives for the whole what it gives for the first piece, followed by
what it gives for the second with numbers that go on from the first; and it raises what the first
piece to raise makes it raise.  The reports of other types count as well. -/
theorem parseFile_append (U : CharTables) (types : Option (List String)) {front : Text}
    (hlines : WholeLines front) (hquiet : EndsQuietly U (readlines front)) (back : Text) :
    (TraceParser.new types).parseFile U (front ++ back) = (do
      let events ← (TraceParser.new types).parseFile U front
      let more ← (TraceParser.new types).parseFile U back
      return events ++ more.map (.renumber (reports U (readlines front)))) := by
  rw [TraceParser.parseFile, TraceParser.parseFile, TraceParser.parseFile, parseLines_eq,
    parseLines_eq, parseLines_eq, readlines_append hlines, TraceParser.new_seq,
    allEvents_append hquiet, allEvents_renumber]
  have hselects : (TraceParser.new types).selects ∘
      HardwareEvent.renumber (reports U (readlines front)) = (TraceParser.new types).selects := rfl
  cases allEvents U 0 (readlines front) with
  | error err => rfl
  | ok events =>
      cases allEvents U 0 (readlines back) with
      | error err => rfl
      | ok more =>
          simp only [Except.map, bind, Except.bind, pure, Except.pure, List.filter_append,
            List.filter_map, hselects]

end Pieces

/-- A corrected error and five lines about something else. -/
def quietFront : Text :=
  "EDAC MC0: 1 CE\n".toList ++ (List.replicate 5 "usb 1-1: reset\n".toList).flatten

theorem parseFile_append_quiet :
    ((TraceParser.new (some ["UE"])).parseFile asciiTables
      (quietFront ++ "EDAC MC1: 2 UE\n".toList)).map (List.map HardwareEvent.seq) = .ok [1] := by
  have hlast : quietFront.getLast? = some '\n' := by decide +kernel
  have hlines : WholeLines quietFront := fun c hc =>
    (Option.some.inj (hlast.symm.trans hc)).symm
  have hnone : ((readlines quietFront).drop ((readlines quietFront).length - 5)).all
      (fun l => (lineReport asciiTables l).isNone) = true := by
    decide +kernel
  have hquiet : EndsQuietly asciiTables (readlines quietFront) := fun l hl =>
    Option.isNone_iff_eq_none.1 (List.all_eq_true.1 hnone l hl)
  rw [parseFile_append asciiTables (some ["UE"]) hlines hquiet]
  decide +kernel

end FaultOracle.Trace
