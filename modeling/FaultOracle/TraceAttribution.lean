import FaultOracle.EdacPatterns
import FaultOracle.TraceParserRuns

/-!
# Which line a field comes from

The parser looks for the location of a memory error on the next three lines and for the
type of a PCIe error on the next five, and takes the first line which carries one,
whatever stands in between.  So a field belongs to the event exactly when no line up to
and including that one reports an event of its own (`attributed_iff`).
-/

namespace FaultOracle.Trace

open BacktrackingRegex
open CheckedLoops (bind_eq_ok)
open FaultOracle.Remediation (isPySpace strip)

/-! ## The first line found -/

/-- `l` is the first of the lines, and among the first `n`, of which `p` holds; `pre` are
those before it. -/
structure FirstWithin (n : Nat) (p : Text → Bool) (following pre : List Text) (l : Text) :
    Prop where
  split : ∃ post, following = pre ++ l :: post
  near : pre.length < n
  found : p l = true
  earlier : ∀ x ∈ pre, p x = false

/-- The first of the next `n` lines with a property. -/
theorem find?_take_eq_some_iff {n : Nat} {p : Text → Bool} {following : List Text} {l : Text} :
    (following.take n).find? p = some l ↔ ∃ pre, FirstWithin n p following pre l := by
  rw [List.find?_eq_some_iff_append]
  constructor
  · intro ⟨hfound, pre, post, hsplit, hpre⟩
    refine ⟨pre, ⟨post ++ following.drop n, ?_⟩, ?_, hfound, by simpa using hpre⟩
    · rw [← List.cons_append, ← List.append_assoc, ← hsplit, List.take_append_drop]
    · have hlen := congrArg List.length hsplit
      simp only [List.length_take, List.length_append, List.length_cons] at hlen
      omega
  · intro ⟨pre, ⟨post, hsplit⟩, hnear, hfound, hpre⟩
    refine ⟨hfound, pre, post.take (n - pre.length - 1), ?_, by simpa using hpre⟩
    obtain ⟨k, hk⟩ : ∃ k, n - pre.length = k + 1 := ⟨n - pre.length - 1, by omega⟩
    rw [hsplit, List.take_append, List.take_of_length_le (by omega), hk, List.take_succ_cons]
    rfl

/-- No line of which `p` holds stands before the first one. -/
theorem FirstWithin.subset {n : Nat} {p : Text → Bool} {following pre pre' post' : List Text}
    {l l' : Text} (h : FirstWithin n p following pre l) (hsplit : following = pre' ++ l' :: post')
    (hl' : p l' = true) : ∀ x ∈ pre ++ [l], x ∈ pre' ++ [l'] := by
  obtain ⟨post, hpost⟩ := h.split
  have hboth : pre ++ (l :: post) = pre' ++ (l' :: post') := hpost.symm.trans hsplit
  rcases List.append_eq_append_iff.mp hboth with ⟨more, rfl, hmore⟩ | ⟨more, rfl, hmore⟩
  · intro x hx
    cases more with
    | nil =>
        obtain ⟨rfl, _⟩ := List.cons.inj hmore
        simpa using hx
    | cons y more =>
        obtain ⟨rfl, _⟩ := List.cons.inj hmore
        rcases List.mem_append.mp hx with hx | hx
        · simp [hx]
        · simp [List.mem_singleton.mp hx]
  · cases more with
    | nil =>
        obtain ⟨rfl, _⟩ := List.cons.inj hmore
        simp
    | cons y more =>
        obtain ⟨rfl, _⟩ := List.cons.inj hmore
        have hnot := h.earlier l' (by simp)
        rw [hl'] at hnot
        cases hnot

section Lines

variable (U : CharTables)

/-! ## What lines carry -/

/-- The csrow and channel in a text. -/
def placeIn (text : Text) : Option Nat × Option Nat :=
  (((reEdacLocation U).search text).map fun l => U.decimal ((l.groups 1).getD []),
    ((reEdacLocation U).search text).map fun l => U.decimal ((l.groups 2).getD []))

/-- The PCIe error type in a text. -/
def errorTypeIn (text : Text) : Option Text :=
  ((reAerErrorType U).search text).map fun m => strip ((m.groups 1).getD [])

/-- A line with a csrow and channel. -/
def isLocationLine (l : Text) : Bool := ((reEdacLocation U).search (rstripNewline l)).isSome

/-- A line with a PCIe error type. -/
def isErrorTypeLine (l : Text) : Bool := ((reAerErrorType U).search l).isSome

/-- None of the lines reports an event. -/
def Quiet (lines : List Text) : Prop := ∀ l ∈ lines, lineReport U l = none

/-- An event, with the line which reports it and the lines after it. -/
structure Built where
  line : Text
  following : List Text
  event : HardwareEvent
deriving DecidableEq

/-- The events built in a run, up to a line which raises. -/
def built : Nat → List Text → List Built
  | _, [] => []
  | seq, line :: following =>
      match lineReport U line with
      | none => built seq following
      | some r =>
          match reportEvent U seq (rstripNewline line) following r with
          | .ok e => ⟨line, following, e⟩ :: built (seq + 1) following
          | .error _ => []

/-- The line of an event without its timestamp. -/
def Built.clean (b : Built) : Text := cleanLine U (rstripNewline b.line)

/-- The csrow and channel, and the PCIe error type, come from the event's own line or from
an annotation on a later line, before which no line reports another event. -/
structure Attributed (b : Built) : Prop where
  place :
    (b.event.csrow, b.event.channel) = (none, none) ∨
    (b.event.csrow, b.event.channel) = placeIn U (b.clean U) ∨
    ∃ pre l post, b.following = pre ++ l :: post ∧ isLocationLine U l = true ∧
      Quiet U (pre ++ [l]) ∧
      (b.event.csrow, b.event.channel) = placeIn U (b.clean U ++ " ".toList ++ rstripNewline l)
  errorType :
    b.event.aerErrorType = none ∨ b.event.aerErrorType = errorTypeIn U b.line ∨
    ∃ pre l post, b.following = pre ++ l :: post ∧ Quiet U (pre ++ [l]) ∧
      b.event.aerErrorType = errorTypeIn U l

/-- No line up to and including the annotation that the parser looks ahead to reports an
event of its own, or the line needs no annotation. -/
def AnnotationBelongs (line : Text) (following : List Text) : Prop :=
  match lineReport U line with
  | some (.edac _ _) =>
      ((reEdacLocation U).search (cleanLine U (rstripNewline line))).isSome ∨
      ∀ pre l, FirstWithin 3 (isLocationLine U) following pre l → Quiet U (pre ++ [l])
  | some (.aer _ _) =>
      ∀ pre l, FirstWithin 5 (isErrorTypeLine U) following pre l →
        errorTypeIn U line = errorTypeIn U l ∨ Quiet U (pre ++ [l])
  | _ => True

end Lines

section Attribution

variable {U : CharTables}

/-- **The events of a run** which does not raise are those which are built. -/
theorem events_of_built {seq : Nat} {lines : List Text} {events : List HardwareEvent}
    (h : allEvents U seq lines = .ok events) : events = (built U seq lines).map Built.event := by
  induction lines generalizing seq events with
  | nil =>
      obtain rfl := Except.ok.inj h
      rfl
  | cons line following ih =>
      rw [built]
      cases hr : lineReport U line with
      | none =>
          rw [allEvents_of_silent hr] at h
          exact ih h
      | some r =>
          rw [allEvents_of_report hr, bind_eq_ok] at h
          obtain ⟨e, he, h⟩ := h
          obtain ⟨rest, hrest, h⟩ := bind_eq_ok.mp h
          obtain rfl := Except.ok.inj h
          simp only [he, List.map_cons, ← ih hrest]

/-- Where an event built in a run comes from. -/
theorem report_of_built {seq : Nat} {lines : List Text} {b : Built}
    (h : b ∈ built U seq lines) :
    ∃ n r, lineReport U b.line = some r ∧
      reportEvent U n (rstripNewline b.line) b.following r = .ok b.event := by
  induction lines generalizing seq with
  | nil => cases h
  | cons line following ih =>
      rw [built] at h
      cases hr : lineReport U line with
      | none =>
          simp only [hr] at h
          exact ih h
      | some r =>
          simp only [hr] at h
          cases he : reportEvent U seq (rstripNewline line) following r with
          | error err => simp [he] at h
          | ok e =>
              simp only [he] at h
              rcases List.mem_cons.mp h with rfl | h
              · exact ⟨seq, r, hr, he⟩
              · exact ih h

end Attribution

section Fields

variable {U : CharTables} {following : List Text} {clean : Text}

/-- The line taken for the location is the first of three. -/
theorem lookAheadEdacLocation_eq :
    lookAheadEdacLocation U following =
      (((following.take 3).find? (isLocationLine U)).map rstripNewline).getD [] := by
  rw [lookAheadEdacLocation, List.find?_map]
  rfl

/-- The error type is taken from the first of five lines. -/
theorem lookAheadAerType_eq :
    lookAheadAerType U following =
      ((following.take 5).find? (isErrorTypeLine U)).bind (errorTypeIn U) := by
  rw [lookAheadAerType]
  induction following.take 5 with
  | nil => rfl
  | cons l lines ih =>
      rw [List.findSome?_cons, List.find?_cons, isErrorTypeLine]
      cases hl : (reAerErrorType U).search l with
      | none => simpa using ih
      | some m => simp [errorTypeIn, hl]

/-- A line is a location line exactly when the pattern occurs in it. -/
theorem isLocationLine_iff {l : Text} :
    isLocationLine U l = true ↔ (reEdacLocation U).Occurs (rstripNewline l) := by
  rw [isLocationLine, reEdacLocation_plain.search_isSome_iff]

/-- The location of the line itself goes before that of the line appended to it. -/
theorem placeIn_append_of_isSome (h : ((reEdacLocation U).search clean).isSome) (l : Text) :
    placeIn U (clean ++ " ".toList ++ l) = placeIn U clean := by
  obtain ⟨m, hm⟩ := Option.isSome_iff_exists.mp h
  have hblank : Stops U.isDigit (" ".toList ++ l) := by simp [U.isDigit_ascii]
  obtain ⟨m', hm', hgroups⟩ := search_location_append hm hblank
  rw [← List.append_assoc] at hm'
  simp only [placeIn, hm, hm', Option.map_some, hgroups]

/-- Without a location in the line and without one to append, there is none. -/
theorem placeIn_append_nil (h : ¬ ((reEdacLocation U).search clean).isSome) :
    placeIn U (clean ++ " ".toList ++ []) = (none, none) := by
  rw [reEdacLocation_plain.search_isSome_iff, ← occurs_location_append_blank,
    ← reEdacLocation_plain.search_eq_none_iff] at h
  have hsame : clean ++ " ".toList ++ [] = clean ++ [' '] := by simp
  simp only [placeIn, hsame, h, Option.map_none]

/-- An appended location is found, if no other one is. -/
theorem placeIn_append_of_line {l : Text} (h : isLocationLine U l = true) :
    placeIn U (clean ++ " ".toList ++ rstripNewline l) ≠ (none, none) := by
  have hocc : (reEdacLocation U).Occurs (clean ++ " ".toList ++ rstripNewline l) :=
    (isLocationLine_iff.mp h).append_left _
  rw [← reEdacLocation_plain.search_isSome_iff] at hocc
  obtain ⟨m, hm⟩ := Option.isSome_iff_exists.mp hocc
  rw [placeIn, hm]
  simp

/-- A line without the pattern has no place. -/
theorem placeIn_eq_none (h : ¬ ((reEdacLocation U).search clean).isSome) :
    placeIn U clean = (none, none) := by
  simp only [Bool.not_eq_true, Option.isSome_eq_false_iff, Option.isNone_iff_eq_none] at h
  simp only [placeIn, h, Option.map_none]

end Fields

section Events

variable {U : CharTables} {n : Nat} {b : Built}

/-- The place of an EDAC event is read from its line and the line looked ahead to. -/
theorem place_of_edac {type : EventType} {m : Match}
    (h : reportEvent U n (rstripNewline b.line) b.following (.edac type m) = .ok b.event) :
    (b.event.csrow, b.event.channel) =
        placeIn U (b.clean U ++ " ".toList ++ lookAheadEdacLocation U b.following) ∧
      b.event.aerErrorType = none := by
  obtain ⟨_, _, _, _, ns, _, he⟩ := makeEdacEvent_eq_ok.mp h
  simp only [he, placeIn, Built.clean, and_self]

/-- The error type of a PCIe event. -/
theorem errorType_of_aer {type : EventType} {device : Text}
    (h : reportEvent U n (rstripNewline b.line) b.following (.aer type device) = .ok b.event) :
    b.event.aerErrorType = lookAheadAerType U b.following ∧
      (b.event.csrow, b.event.channel) = (none, none) := by
  obtain ⟨ns, _, he⟩ := makePlainEvent_eq_ok.mp h
  rw [he]
  exact ⟨rfl, rfl⟩

/-- A machine check has no place and no error type. -/
theorem fields_of_mce
    (h : reportEvent U n (rstripNewline b.line) b.following .mce = .ok b.event) :
    b.event.aerErrorType = none ∧ (b.event.csrow, b.event.channel) = (none, none) := by
  obtain ⟨ns, _, he⟩ := makePlainEvent_eq_ok.mp h
  rw [he]
  exact ⟨rfl, rfl⟩

/-- An EDAC event has its own place exactly when no event is reported up to the line that
the parser looks ahead to. -/
theorem attributed_edac_iff {type : EventType} {m : Match}
    (h : reportEvent U n (rstripNewline b.line) b.following (.edac type m) = .ok b.event) :
    Attributed U b ↔
      ((reEdacLocation U).search (b.clean U)).isSome ∨
      ∀ pre l, FirstWithin 3 (isLocationLine U) b.following pre l → Quiet U (pre ++ [l]) := by
  obtain ⟨hplace, hnone⟩ := place_of_edac h
  by_cases hown : ((reEdacLocation U).search (b.clean U)).isSome
  · -- the line's own location is read
    rw [placeIn_append_of_isSome hown] at hplace
    exact iff_of_true ⟨Or.inr (Or.inl hplace), Or.inl hnone⟩ (Or.inl hown)
  · rw [lookAheadEdacLocation_eq] at hplace
    constructor
    · intro hb
      right
      intro pre l hfirst
      rw [find?_take_eq_some_iff.mpr ⟨pre, hfirst⟩] at hplace
      have hsome : placeIn U (b.clean U ++ " ".toList ++ rstripNewline l) ≠ (none, none) :=
        placeIn_append_of_line hfirst.found
      rcases hb.place with hp | hp | ⟨pre', l', post', hsplit, hl', hquiet, _⟩
      · exact absurd (hplace.symm.trans hp) hsome
      · rw [placeIn_eq_none hown] at hp
        exact absurd (hplace.symm.trans hp) hsome
      · intro x hx
        exact hquiet x (hfirst.subset hsplit hl' x hx)
    · intro hcond
      have hquiet := hcond.resolve_left hown
      refine ⟨?_, Or.inl hnone⟩
      cases hfind : (b.following.take 3).find? (isLocationLine U) with
      | none =>
          rw [hfind] at hplace
          exact Or.inl (hplace.trans (placeIn_append_nil hown))
      | some l =>
          rw [hfind] at hplace
          obtain ⟨pre, hfirst⟩ := find?_take_eq_some_iff.mp hfind
          obtain ⟨post, hsplit⟩ := hfirst.split
          exact Or.inr (Or.inr ⟨pre, l, post, hsplit, hfirst.found, hquiet pre l hfirst, hplace⟩)

/-- A line is an error line exactly when it names a type. -/
theorem isErrorTypeLine_iff {l : Text} :
    isErrorTypeLine U l = true ↔ errorTypeIn U l ≠ none := by
  rw [isErrorTypeLine, errorTypeIn]
  cases (reAerErrorType U).search l <;> simp

/-- A PCIe event has its own type exactly when no event is reported up to the line that the
parser looks ahead to, or its own line has the same type. -/
theorem attributed_aer_iff {type : EventType} {device : Text}
    (h : reportEvent U n (rstripNewline b.line) b.following (.aer type device) = .ok b.event) :
    Attributed U b ↔
      ∀ pre l, FirstWithin 5 (isErrorTypeLine U) b.following pre l →
        errorTypeIn U b.line = errorTypeIn U l ∨ Quiet U (pre ++ [l]) := by
  obtain ⟨htype, hplace⟩ := errorType_of_aer h
  rw [lookAheadAerType_eq] at htype
  constructor
  · intro hb pre l hfirst
    rw [find?_take_eq_some_iff.mpr ⟨pre, hfirst⟩, Option.bind_some] at htype
    have hsome := isErrorTypeLine_iff.mp hfirst.found
    rcases hb.errorType with ht | ht | ⟨pre', l', post', hsplit, hquiet, ht⟩
    · exact absurd (htype.symm.trans ht) hsome
    · exact Or.inl (ht.symm.trans htype)
    · have hl' : isErrorTypeLine U l' = true := by
        rw [isErrorTypeLine_iff, ← ht, htype]
        exact hsome
      right
      intro x hx
      exact hquiet x (hfirst.subset hsplit hl' x hx)
  · intro hcond
    refine ⟨Or.inl hplace, ?_⟩
    cases hfind : (b.following.take 5).find? (isErrorTypeLine U) with
    | none =>
        rw [hfind] at htype
        exact Or.inl htype
    | some l =>
        rw [hfind, Option.bind_some] at htype
        obtain ⟨pre, hfirst⟩ := find?_take_eq_some_iff.mp hfind
        obtain ⟨post, hsplit⟩ := hfirst.split
        rcases hcond pre l hfirst with hown | hquiet
        · exact Or.inr (Or.inl (htype.trans hown.symm))
        · exact Or.inr (Or.inr ⟨pre, l, post, hsplit, hquiet, htype⟩)

/-- An event has only fields of its own exactly when its annotation belongs to it. -/
theorem attributed_iff_annotationBelongs {seq : Nat} {lines : List Text}
    (hb : b ∈ built U seq lines) :
    Attributed U b ↔ AnnotationBelongs U b.line b.following := by
  obtain ⟨n, r, hr, he⟩ := report_of_built hb
  rw [AnnotationBelongs, hr]
  cases r with
  | edac type m => exact attributed_edac_iff he
  | aer type device => exact attributed_aer_iff he
  | mce =>
      obtain ⟨htype, hplace⟩ := fields_of_mce he
      exact iff_of_true ⟨Or.inl hplace, Or.inl htype⟩ trivial

end Events

/-- **Attribution.**  The events built from a log have only fields of their own exactly when
every annotation the parser looks ahead to belongs to the event that looks for it. -/
theorem attributed_iff (U : CharTables) (text : Text) :
    (∀ b ∈ built U 0 (readlines text), Attributed U b) ↔
      ∀ b ∈ built U 0 (readlines text), AnnotationBelongs U b.line b.following := by
  constructor
  · intro h b hb
    exact (attributed_iff_annotationBelongs hb).mp (h b hb)
  · intro h b hb
    exact (attributed_iff_annotationBelongs hb).mpr (h b hb)

/-- Two events in a row, of which only the second has a location. -/
def twoEventLog : List Text :=
  ["EDAC MC0: 1 CE\n".toList, "EDAC MC1: 1 UE csrow:3 channel:1\n".toList]

/-- The first event of the log gets the csrow and the channel of the second. -/
theorem place_of_next_event :
    ¬ ∀ b ∈ built asciiTables 0 (readlines twoEventLog.flatten), Attributed asciiTables b := by
  intro h
  have hfirst : ∃ b ∈ built asciiTables 0 (readlines twoEventLog.flatten),
      b.following = twoEventLog.drop 1 ∧
        (b.event.csrow, b.event.channel) = (some 3, some 1) ∧
        placeIn asciiTables (b.clean asciiTables) = (none, none) := by
    decide +kernel
  have hsecond : ∀ l ∈ twoEventLog.drop 1, (lineReport asciiTables l).isSome := by
    decide +kernel
  obtain ⟨b, hb, hfollowing, hplace, hown⟩ := hfirst
  rcases (h b hb).place with hp | hp | ⟨pre, l, post, hsplit, _, hquiet, _⟩
  · rw [hplace] at hp
    cases hp
  · rw [hplace, hown] at hp
    cases hp
  · have hl : l ∈ twoEventLog.drop 1 := by simp [← hfollowing, hsplit]
    have hreport := hsecond l hl
    rw [hquiet l (by simp)] at hreport
    cases hreport

end FaultOracle.Trace
