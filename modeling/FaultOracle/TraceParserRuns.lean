import FaultOracle.TraceParser

/-!
# Runs of the trace parser

What a line reports does not depend on the parser, which only numbers the events and
selects among them.  So a run of `parse_file` is the list of all events of the log
(`allEvents`), filtered by type (`parseLines_eq`); numbering comes before the filter and
is without gaps.
-/

namespace FaultOracle.Trace

open PythonFloats
open CheckedLoops (bind_eq_ok)
open FaultOracle.Remediation (strip)

variable (U : CharTables)

/-- What a line of the file reports; blank lines report nothing. -/
def lineReport (line : Text) : Option Report :=
  if strip (rstripNewline line) = [] then none
  else tryPatterns U (cleanLine U (rstripNewline line))

/-- The events of all types, numbered from `seq`. -/
def allEvents : Nat → List Text → Except IntError (List HardwareEvent)
  | _, [] => .ok []
  | seq, line :: following =>
      match lineReport U line with
      | none => allEvents seq following
      | some r => do
          let e ← reportEvent U seq (rstripNewline line) following r
          let events ← allEvents (seq + 1) following
          return e :: events

/-- The event types the parser was made for. -/
def TraceParser.selects (p : TraceParser) (e : HardwareEvent) : Bool :=
  e.eventType.text ∈ p.eventTypes

section Runs

variable {U}

theorem parseLines_of_silent {p : TraceParser} {line : Text} {following : List Text}
    (h : lineReport U line = none) :
    p.parseLines U (line :: following) = p.parseLines U following := by
  rw [TraceParser.parseLines]
  unfold lineReport at h
  split at h
  · rename_i hblank
    simp only [hblank, if_true]
  · rename_i hblank
    simp only [hblank, if_false, TraceParser.parseLine, h, bind, Except.bind]
    cases p.parseLines U following <;> rfl

theorem parseLines_of_report {p : TraceParser} {line : Text} {following : List Text}
    {r : Report} (h : lineReport U line = some r) :
    p.parseLines U (line :: following) = (do
      let e ← reportEvent U p.seq (rstripNewline line) following r
      let events ← (p.after r).parseLines U following
      return if p.selects e then e :: events else events) := by
  rw [TraceParser.parseLines]
  unfold lineReport at h
  split at h
  · cases h
  · rename_i hblank
    simp only [hblank, if_false, TraceParser.parseLine, h]
    cases reportEvent U p.seq (rstripNewline line) following r with
    | error err => rfl
    | ok e => simp [Except.map, bind, Except.bind, TraceParser.selects]

theorem allEvents_of_silent {seq : Nat} {line : Text} {following : List Text}
    (h : lineReport U line = none) :
    allEvents U seq (line :: following) = allEvents U seq following := by
  rw [allEvents, h]

theorem allEvents_of_report {seq : Nat} {line : Text} {following : List Text} {r : Report}
    (h : lineReport U line = some r) :
    allEvents U seq (line :: following) = (do
      let e ← reportEvent U seq (rstripNewline line) following r
      let events ← allEvents U (seq + 1) following
      return e :: events) := by
  rw [allEvents, h]

/-- A run gives the events of the log whose type the parser selects. -/
theorem parseLines_eq (p : TraceParser) (lines : List Text) :
    p.parseLines U lines = (allEvents U p.seq lines).map (List.filter p.selects) := by
  induction lines generalizing p with
  | nil => rfl
  | cons line following ih =>
      cases hr : lineReport U line with
      | none => rw [parseLines_of_silent hr, ih, allEvents_of_silent hr]
      | some r =>
          have hsame : (p.after r).selects = p.selects := by
            funext e
            simp [TraceParser.selects]
          rw [parseLines_of_report hr, ih, allEvents_of_report hr, TraceParser.after_seq, hsame]
          generalize reportEvent U p.seq (rstripNewline line) following r = made
          generalize allEvents U (p.seq + 1) following = rest
          -- an error of the line stops the run before the lines after it are read
          cases made with
          | error err => rfl
          | ok e =>
              cases rest with
              | error err => rfl
              | ok events =>
                  simp only [Except.map, bind, Except.bind, pure, Except.pure, List.filter_cons]

/-- The parser made without a list of types selects every event. -/
theorem selects_new_none (e : HardwareEvent) : (TraceParser.new none).selects e = true := by
  cases h : e.eventType <;> simp [TraceParser.selects, TraceParser.new, EventType.text, h]

theorem parseFile_new_none (text : Text) :
    (TraceParser.new none).parseFile U text = allEvents U 0 (readlines text) := by
  have hall : List.filter (TraceParser.new none).selects = id := by
    funext events
    exact List.filter_eq_self.mpr (fun e _ => selects_new_none e)
  rw [TraceParser.parseFile, parseLines_eq, hall, TraceParser.new_seq]
  cases allEvents U 0 (readlines text) <;> rfl

/-! ## Numbers -/

/-- Events are numbered one after another. -/
theorem seq_allEvents {seq : Nat} {lines : List Text} {events : List HardwareEvent}
    (h : allEvents U seq lines = .ok events) :
    events.map HardwareEvent.seq = List.range' seq events.length := by
  induction lines generalizing seq events with
  | nil =>
      obtain rfl := Except.ok.inj h
      rfl
  | cons line following ih =>
      cases hr : lineReport U line with
      | none =>
          rw [allEvents_of_silent hr] at h
          exact ih h
      | some r =>
          rw [allEvents_of_report hr, bind_eq_ok] at h
          obtain ⟨e, he, h⟩ := h
          obtain ⟨rest, hrest, h⟩ := bind_eq_ok.mp h
          obtain rfl := Except.ok.inj h
          rw [List.map_cons, seq_of_reportEvent he, ih hrest, List.length_cons, List.range'_succ]

/-- Numbers grow along every selection of the events. -/
theorem seq_lt_of_allEvents {seq : Nat} {lines : List Text} {events : List HardwareEvent}
    (h : allEvents U seq lines = .ok events) (selected : HardwareEvent → Bool) :
    (events.filter selected).Pairwise (fun e e' => e.seq < e'.seq) := by
  apply List.Pairwise.filter
  rw [← List.pairwise_map (f := HardwareEvent.seq) (R := fun a b => a < b), seq_allEvents h]
  exact List.pairwise_lt_range'

/-- What the events of a result are: a selection of those of the log. -/
theorem seq_lt_of_parseFile {p : TraceParser} {text : Text} {events : List HardwareEvent}
    (h : p.parseFile U text = .ok events) : events.Pairwise (fun e e' => e.seq < e'.seq) := by
  rw [TraceParser.parseFile, parseLines_eq] at h
  cases hall : allEvents U p.seq (readlines text) with
  | error err => simp [hall, Except.map] at h
  | ok all =>
      rw [hall] at h
      obtain rfl := Except.ok.inj h
      exact seq_lt_of_allEvents hall p.selects

/-- **Restricting the types** keeps the events of those types, with all their fields; the
numbers grow along the restricted and the unrestricted list.  A log that makes the one
parser raise makes the other raise the same. -/
theorem parseFile_restricted (U : CharTables) (text : Text) (T : List String) :
    (TraceParser.new (some T)).parseFile U text =
      ((TraceParser.new none).parseFile U text).map
        (List.filter fun e => e.eventType.text ∈ T) ∧
    (∀ events, (TraceParser.new (some T)).parseFile U text = .ok events →
      events.Pairwise fun e e' => e.seq < e'.seq) ∧
    ∀ events, (TraceParser.new none).parseFile U text = .ok events →
      events.Pairwise fun e e' => e.seq < e'.seq := by
  refine ⟨?_, fun events h => seq_lt_of_parseFile h, fun events h => seq_lt_of_parseFile h⟩
  rw [parseFile_new_none, TraceParser.parseFile, parseLines_eq]
  rfl

end Runs

end FaultOracle.Trace
