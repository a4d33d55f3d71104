import FaultOracle.BacktrackingRegex
import FaultOracle.CheckedLoops
import FaultOracle.RemediationController

/-!
# The trace parser

`replay/parse_edac_trace.py`: `TraceParser.parse_file` reads a kernel log line by line
and turns the lines which report a hardware error into events, numbered in the order in
which they are built.  The location of a memory error and the type of a PCIe error may
stand on one of the following lines, for which the parser looks ahead.

A log is a list of characters, a line is given with the lines that follow it, and what
`int` can raise is in the result.  Which characters beyond ASCII are digits or letters is
the matter of the interpreter's Unicode database, taken as `CharTables`.
-/

namespace FaultOracle.Trace

open BacktrackingRegex PythonFloats
open CheckedLoops (bind_eq_ok)
open FaultOracle.Remediation (isPySpace isPySpace_of_graphic strip)

abbrev Text := List Char

/-- The classes `\d` and `\w`, the value `int` gives a digit, and the letters which are
the same under `re.IGNORECASE`. -/
structure CharTables where
  isDigit : Char → Bool
  digitValue : Char → Nat
  isWord : Char → Bool
  sameLetter : Char → Char → Bool
  isDigit_ascii : ∀ c, c.toNat < 128 → isDigit c = c.isDigit
  digitValue_ascii : ∀ c, c.isDigit = true → digitValue c = c.toNat - '0'.toNat
  isWord_ascii : ∀ c, c.toNat < 128 → isWord c = (c.isAlphanum || c == '_')
  sameLetter_ascii : ∀ c d, c.toNat < 128 → d.toNat < 128 →
    sameLetter c d = (c.toLower == d.toLower)
  isPySpace_of_isDigit : ∀ c, isDigit c = true → isPySpace c = false

/-- The tables as far as ASCII goes. -/
def asciiTables : CharTables where
  isDigit := Char.isDigit
  digitValue := fun c => c.toNat - '0'.toNat
  isWord := fun c => c.isAlphanum || c == '_'
  sameLetter := fun c d => c.toLower == d.toLower
  isDigit_ascii := fun _ _ => rfl
  digitValue_ascii := fun _ _ => rfl
  isWord_ascii := fun _ _ => rfl
  sameLetter_ascii := fun _ _ _ _ => rfl
  isPySpace_of_isDigit := by
    intro c hc
    have hrange : 48 ≤ c.toNat ∧ c.toNat ≤ 57 := by
      simp only [Char.isDigit, Bool.and_eq_true, decide_eq_true_eq, ge_iff_le,
        UInt32.le_iff_toNat_le] at hc
      exact hc
    exact isPySpace_of_graphic (by omega) (by omega)

/-! ## The patterns -/

/-- `.`. -/
def isDot (c : Char) : Bool := c != '\n'

/-- `[0-9a-fA-F]`. -/
def isHexDigit (c : Char) : Bool :=
  c.isDigit || ('a' ≤ c && c ≤ 'f') || ('A' ≤ c && c ≤ 'F')

/-- The hexadecimal digits by their code points. -/
theorem isHexDigit_iff {c : Char} : isHexDigit c = true ↔
    ((48 ≤ c.toNat ∧ c.toNat ≤ 57) ∨ (97 ≤ c.toNat ∧ c.toNat ≤ 102)) ∨
      (65 ≤ c.toNat ∧ c.toNat ≤ 70) := by
  simp only [isHexDigit, Char.isDigit, Bool.or_eq_true, Bool.and_eq_true, decide_eq_true_eq,
    ge_iff_le, UInt32.le_iff_toNat_le, Char.le_def]
  exact Iff.rfl

/-- `[\da-fA-F:.]`. -/
def CharTables.isAddressChar (U : CharTables) (c : Char) : Bool :=
  U.isDigit c || isHexDigit c || c == ':' || c == '.'

/-- A text under `re.IGNORECASE`. -/
def CharTables.litIgnoreCase (U : CharTables) : Text → Re
  | [] => .empty
  | c :: w => .one (U.sameLetter c) ++ U.litIgnoreCase w

/-- A literal in any case is a plain pattern. -/
theorem CharTables.plain_litIgnoreCase (U : CharTables) (w : Text) : (U.litIgnoreCase w).Plain := by
  induction w with
  | nil => exact trivial
  | cons c w ih => exact ⟨trivial, ih⟩

/-- A text of ASCII is matched as it is. -/
theorem CharTables.lang_litIgnoreCase (U : CharTables) {w : Text}
    (h : (w.all fun c => decide (c.toNat < 128)) = true) : (U.litIgnoreCase w).Lang w := by
  induction w with
  | nil => rfl
  | cons c w ih =>
      obtain ⟨hc, hw⟩ := Bool.and_eq_true_iff.mp h
      have hascii : c.toNat < 128 := of_decide_eq_true hc
      have hsame : U.sameLetter c c = true := by
        rw [U.sameLetter_ascii c c hascii hascii]
        exact beq_self_eq_true _
      exact ⟨[c], w, ⟨c, hsame, rfl⟩, ih hw, rfl⟩

section Patterns

open Re

variable (U : CharTables)

/-- `RE_MONOTONIC`. -/
def reMonotonic : Re :=
  .atStart ++ (lit "[".toList ++ star isPySpace ++
    group 1 (plus U.isDigit ++ lit ".".toList ++ plus U.isDigit) ++ lit "]".toList)

/-- `\d{2}:\d{2}:\d{2}`. -/
def reTimeOfDay : Re :=
  times 2 (one U.isDigit) ++ lit ":".toList ++ times 2 (one U.isDigit) ++ lit ":".toList ++
    times 2 (one U.isDigit)

/-- `\w{3}\s+\d+\s+\d{2}:\d{2}:\d{2}`. -/
def reSyslogTime : Re :=
  times 3 (one U.isWord) ++ plus isPySpace ++ plus U.isDigit ++ plus isPySpace ++ reTimeOfDay U

/-- `RE_SYSLOG_TS`. -/
def reSyslogTs : Re := .atStart ++ (group 1 (reSyslogTime U) ++ one isPySpace)

/-- `^\[[\s\d.]+\]\s*`. -/
def reBracketPrefix : Re :=
  .atStart ++ (lit "[".toList ++ plus (fun c => isPySpace c || U.isDigit c || c == '.') ++
    lit "]".toList ++ star isPySpace)

/-- `^\w{3}\s+\d+\s+\d{2}:\d{2}:\d{2}\s+\S+\s+kernel:\s*`. -/
def reSyslogPrefix : Re :=
  .atStart ++ (reSyslogTime U ++ plus isPySpace ++ plus (fun c => !isPySpace c) ++
    plus isPySpace ++ lit "kernel:".toList ++ star isPySpace)

/-- `EDAC\s+(MC\d+):\s+(\d+)\s+` with the kind of error after it as a word. -/
def reEdac (kind : Text) : Re :=
  lit "EDAC".toList ++ plus isPySpace ++ group 1 (lit "MC".toList ++ plus U.isDigit) ++
    lit ":".toList ++ plus isPySpace ++ group 2 (plus U.isDigit) ++ plus isPySpace ++
    (lit kind ++ boundary U.isWord)

/-- `RE_EDAC_CE`. -/
def reEdacCe : Re := reEdac U "CE".toList

/-- `RE_EDAC_UE`. -/
def reEdacUe : Re := reEdac U "UE".toList

/-- `RE_EDAC_DETAILS`. -/
def reEdacDetails : Re :=
  lit "(".toList ++
    opt (lit "mc:".toList ++ plus U.isDigit ++ plus isPySpace) ++
    opt (lit "page:0x".toList ++ group 1 (plus isHexDigit) ++ star isPySpace) ++
    opt (lit "offset:0x".toList ++ group 2 (plus isHexDigit) ++ star isPySpace) ++
    opt (lit "grain:".toList ++ group 3 (plus U.isDigit) ++ star isPySpace) ++
    opt (lit "syndrome:0x".toList ++ group 4 (plus isHexDigit))

/-- `RE_EDAC_LOCATION`. -/
def reEdacLocation : Re :=
  lit "csrow:".toList ++ group 1 (plus U.isDigit) ++ plus isPySpace ++
    lit "channel:".toList ++ group 2 (plus U.isDigit)

/-- `RE_AER_CORRECTED`. -/
def reAerCorrected : Re :=
  lit "AER:".toList ++ plus isPySpace ++ lit "Corrected error received:".toList ++
    plus isPySpace ++ group 1 (plus U.isAddressChar)

/-- `RE_AER_UNCORRECTED`. -/
def reAerUncorrected : Re :=
  lit "AER:".toList ++ plus isPySpace ++ lit "Uncorrected".toList ++ plus isPySpace ++
    lit "(".toList ++ group 1 (plus (fun c => U.isWord c || c == '-')) ++ lit ")".toList ++
    plus isPySpace ++ lit "error received:".toList ++ plus isPySpace ++
    group 2 (plus U.isAddressChar)

/-- `RE_AER_ERROR_TYPE`. -/
def reAerErrorType : Re :=
  lit "[".toList ++ star isPySpace ++ plus U.isDigit ++ lit "]".toList ++ plus isPySpace ++
    group 1 (plus isDot)

/-- `RE_MCE`. -/
def reMce : Re :=
  alt (U.litIgnoreCase "mce:".toList)
    (alt (U.litIgnoreCase "Machine check".toList)
      (U.litIgnoreCase "MCE".toList ++ plus isPySpace ++ plus U.isDigit)) ++
    star isDot ++ U.litIgnoreCase "Hardware Error".toList

end Patterns

/-! ## Events -/

/-- `event_type`. -/
inductive EventType
  | ce
  | ue
  | aerCe
  | aerUe
  | mce
deriving DecidableEq, Repr

/-- The text of an event type. -/
def EventType.text : EventType → String
  | .ce => "CE"
  | .ue => "UE"
  | .aerCe => "AER_CE"
  | .aerUe => "AER_UE"
  | .mce => "MCE"

/-- `HardwareEvent`. -/
structure HardwareEvent where
  seq : Nat
  timestampStr : Text
  timestampNs : Int
  monotonicS : Option PyFloat
  eventType : EventType
  subsystem : String
  controller : Text
  csrow : Option Nat
  channel : Option Nat
  count : Nat
  page : Option Nat
  offset : Option Nat
  grain : Option Nat
  syndrome : Option Text
  pciDevice : Option Text
  aerErrorType : Option Text
  rawMessage : Text
deriving DecidableEq, Repr

/-- `TraceParser`. -/
structure TraceParser where
  eventTypes : List String
  seq : Nat
  pendingAerDevice : Option Text
  pendingAerSeverity : Option EventType

/-- `TraceParser(event_types)`. -/
def TraceParser.new (eventTypes : Option (List String)) : TraceParser where
  eventTypes := eventTypes.getD ["CE", "UE", "AER_CE", "AER_UE", "MCE"]
  seq := 0
  pendingAerDevice := none
  pendingAerSeverity := none

/-! ## Numbers -/

/-- The number spelled by digits. -/
def natOfDigits (base : Nat) (value : Char → Nat) (digits : Text) : Nat :=
  digits.foldl (fun n c => base * n + value c) 0

/-- The value of decimal digits. -/
def CharTables.decimal (U : CharTables) (digits : Text) : Nat :=
  natOfDigits 10 U.digitValue digits

/-- The value of a hexadecimal digit. -/
def hexValue (c : Char) : Nat :=
  if c.isDigit then c.toNat - '0'.toNat
  else if 'a' ≤ c then c.toNat - 'a'.toNat + 10
  else c.toNat - 'A'.toNat + 10

/-- The value of hexadecimal digits, which is that of `int(s, 16)`. -/
def hexadecimal (digits : Text) : Nat := natOfDigits 16 hexValue digits

/-- The digits that `int` converts from a decimal string, leading zeros included. -/
def maxStrDigits : Nat := 4300

/-- `int(s)` for a string of decimal digits. -/
def CharTables.parseInt (U : CharTables) (digits : Text) : Except IntError Nat :=
  if digits.length ≤ maxStrDigits then .ok (U.decimal digits) else .error .valueError

/-- `float(s)` for digits around a decimal point. -/
def CharTables.parseFloat (U : CharTables) (s : Text) : PyFloat :=
  let whole := s.takeWhile (· ≠ '.')
  let fraction := (s.dropWhile (· ≠ '.')).drop 1
  toDouble (U.decimal (whole ++ fraction) / 10 ^ fraction.length)

/-- `int(monotonic_s * 1e9) if monotonic_s else 0`. -/
def timestampNs (monotonicS : Option PyFloat) : Except IntError Int :=
  match monotonicS with
  | none => .ok 0
  | some x => if x.truthy then (x.mulPos 1000000000).toInt else .ok 0

/-! ## The parser -/

/-- The lines of `readlines`, each with its newline. -/
def readlines : Text → List Text
  | [] => []
  | c :: rest =>
      if c = '\n' then [c] :: readlines rest
      else
        match readlines rest with
        | [] => [[c]]
        | l :: lines => (c :: l) :: lines

/-- `line.rstrip("\n")`. -/
def rstripNewline (line : Text) : Text := (line.reverse.dropWhile (· = '\n')).reverse

section Parser

variable (U : CharTables)

/-- `_extract_timestamp`; the result of `strptime` is not used. -/
def extractTimestamp (line : Text) : Option PyFloat × Text :=
  match (reMonotonic U).matchStart line with
  | some m =>
      let seconds := (m.groups 1).getD []
      (some (U.parseFloat seconds), "[".toList ++ seconds ++ "]".toList)
  | none =>
      match (reSyslogTs U).matchStart line with
      | some m => (none, (m.groups 1).getD [])
      | none => (none, [])

/-- The line without its timestamp, `clean`. -/
def cleanLine (line : Text) : Text :=
  (reSyslogPrefix U).removeStart ((reBracketPrefix U).removeStart line)

/-- `_look_ahead_aer_type`, on the lines after the one parsed. -/
def lookAheadAerType (following : List Text) : Option Text :=
  (following.take 5).findSome? fun l =>
    ((reAerErrorType U).search l).map fun m => strip ((m.groups 1).getD [])

/-- `_look_ahead_edac_location`. -/
def lookAheadEdacLocation (following : List Text) : Text :=
  (((following.take 3).map rstripNewline).find? fun l =>
    ((reEdacLocation U).search l).isSome).getD []

/-- What a line reports, by the pattern that claims it. -/
inductive Report
  | edac (type : EventType) (m : Match)
  | aer (type : EventType) (device : Text)
  | mce

/-- The EDAC patterns; a `UE` before the `CE` match rules that match out. -/
def tryEdac (clean : Text) : Option Report :=
  if "EDAC".toList <:+: clean then
    match (reEdacCe U).search clean with
    | some m =>
        if "UE".toList <:+: m.pre then
          ((reEdacUe U).search clean).map (Report.edac .ue)
        else some (.edac .ce m)
    | none => ((reEdacUe U).search clean).map (Report.edac .ue)
  else none

/-- The AER patterns. -/
def tryAer (clean : Text) : Option Report :=
  if "AER".toList <:+: clean then
    match (reAerCorrected U).search clean with
    | some m => some (.aer .aerCe ((m.groups 1).getD []))
    | none =>
        ((reAerUncorrected U).search clean).map fun m => .aer .aerUe ((m.groups 2).getD [])
  else none

/-- The MCE pattern. -/
def tryMce (clean : Text) : Option Report :=
  if ((reMce U).search clean).isSome then some .mce else none

/-- "Try each pattern". -/
def tryPatterns (clean : Text) : Option Report :=
  ((tryEdac U clean).or (tryAer U clean)).or (tryMce U clean)

/-- The groups of `RE_EDAC_DETAILS` where it matches first, none of them without a match. -/
def edacDetails (combined : Text) : Groups :=
  ((reEdacDetails U).search combined).elim (fun _ => none) Match.groups

/-- `_make_edac_event`, from the match of the EDAC pattern and the line with its location
appended. -/
def makeEdacEvent (seq : Nat) (type : EventType) (m : Match) (combined raw : Text)
    (timestamp : Option PyFloat × Text) : Except IntError HardwareEvent := do
  let count ← U.parseInt ((m.groups 2).getD [])
  let details := edacDetails U combined
  let grain ← (details 3).mapM U.parseInt
  let location := (reEdacLocation U).search combined
  let csrow ← location.mapM fun l => U.parseInt ((l.groups 1).getD [])
  let channel ← location.mapM fun l => U.parseInt ((l.groups 2).getD [])
  let ns ← timestampNs timestamp.1
  return {
    seq := seq
    timestampStr := timestamp.2
    timestampNs := ns
    monotonicS := timestamp.1
    eventType := type
    subsystem := "EDAC"
    controller := (m.groups 1).getD []
    csrow := csrow
    channel := channel
    count := count
    page := (details 1).map hexadecimal
    offset := (details 2).map hexadecimal
    grain := grain
    syndrome := details 4
    pciDevice := none
    aerErrorType := none
    rawMessage := strip raw }

/-- What `_make_aer_event` and `_make_mce_event` have in common: no memory location. -/
def makePlainEvent (seq : Nat) (type : EventType) (subsystem : String)
    (device aerType : Option Text) (raw : Text) (timestamp : Option PyFloat × Text) :
    Except IntError HardwareEvent := do
  let ns ← timestampNs timestamp.1
  return {
    seq := seq
    timestampStr := timestamp.2
    timestampNs := ns
    monotonicS := timestamp.1
    eventType := type
    subsystem := subsystem
    controller := []
    csrow := none
    channel := none
    count := 1
    page := none
    offset := none
    grain := none
    syndrome := none
    pciDevice := device
    aerErrorType := aerType
    rawMessage := strip raw }

/-- `_make_aer_event`. -/
def makeAerEvent (seq : Nat) (type : EventType) (device : Text) (aerType : Option Text)
    (raw : Text) (timestamp : Option PyFloat × Text) : Except IntError HardwareEvent :=
  makePlainEvent seq type "AER" (some device) aerType raw timestamp

/-- `_make_mce_event`. -/
def makeMceEvent (seq : Nat) (raw : Text) (timestamp : Option PyFloat × Text) :
    Except IntError HardwareEvent :=
  makePlainEvent seq .mce "MCE" none none raw timestamp

/-- The event of a line, from what it reports. -/
def reportEvent (seq : Nat) (line : Text) (following : List Text) :
    Report → Except IntError HardwareEvent
  | .edac type m =>
      makeEdacEvent U seq type m
        (cleanLine U line ++ " ".toList ++ lookAheadEdacLocation U following) line
        (extractTimestamp U line)
  | .aer type device =>
      makeAerEvent seq type device (lookAheadAerType U following) line (extractTimestamp U line)
  | .mce => makeMceEvent seq line (extractTimestamp U line)

/-- The parser after an event; a corrected PCIe error is also noted as pending. -/
def TraceParser.after (p : TraceParser) : Report → TraceParser
  | .aer .aerCe device =>
      { p with
        seq := p.seq + 1
        pendingAerDevice := some device
        pendingAerSeverity := some .aerCe }
  | _ => { p with seq := p.seq + 1 }

/-- Each report takes the next number. -/
@[simp] theorem TraceParser.after_seq (p : TraceParser) (r : Report) :
    (p.after r).seq = p.seq + 1 := by
  unfold TraceParser.after
  split <;> rfl

/-- A report does not change the types asked for. -/
@[simp] theorem TraceParser.after_eventTypes (p : TraceParser) (r : Report) :
    (p.after r).eventTypes = p.eventTypes := by
  unfold TraceParser.after
  split <;> rfl

/-- `_parse_line`; `following` is `all_lines[line_idx + 1:]`. -/
def TraceParser.parseLine (p : TraceParser) (line : Text) (following : List Text) :
    Except IntError (Option HardwareEvent × TraceParser) :=
  match tryPatterns U (cleanLine U line) with
  | some r => (reportEvent U p.seq line following r).map fun e => (some e, p.after r)
  | none => .ok (none, p)

/-- The loop of `parse_file`. -/
def TraceParser.parseLines (p : TraceParser) : List Text → Except IntError (List HardwareEvent)
  | [] => .ok []
  | line :: following => do
      let line := rstripNewline line
      if strip line = [] then p.parseLines following
      else
        let (event, p) ← p.parseLine U line following
        let events ← p.parseLines following
        match event with
        | some e => return if e.eventType.text ∈ p.eventTypes then e :: events else events
        | none => return events

/-- `parse_file`. -/
def TraceParser.parseFile (p : TraceParser) (text : Text) : Except IntError (List HardwareEvent) :=
  p.parseLines U (readlines text)

end Parser

/-- The numbers begin at zero. -/
@[simp] theorem TraceParser.new_seq (eventTypes : Option (List String)) :
    (TraceParser.new eventTypes).seq = 0 := rfl

/-! ## What conversions give -/

section Conversions

variable {U : CharTables} {α β : Type}

/-- Digits are converted unless there are too many of them. -/
theorem parseInt_eq_ok {digits : Text} {n : Nat} :
    U.parseInt digits = .ok n ↔ digits.length ≤ maxStrDigits ∧ n = U.decimal digits := by
  unfold CharTables.parseInt
  split
  · rename_i hlen
    simp [hlen, eq_comm]
  · rename_i hlen
    simp [hlen]

/-- Optional digits are converted unless there are too many of them. -/
theorem mapM_parseInt_eq_ok {o : Option α} {f : α → Text} {r : Option Nat} :
    (o.mapM fun a => U.parseInt (f a)) = .ok r ↔
      (∀ a ∈ o, (f a).length ≤ maxStrDigits) ∧ r = o.map fun a => U.decimal (f a) := by
  cases o with
  | none =>
      have hnone : (none.mapM fun a => U.parseInt (f a)) = (.ok none : Except IntError _) := rfl
      simp [hnone, eq_comm]
  | some a =>
      rw [Option.mapM_some, Option.map_some]
      unfold CharTables.parseInt
      split
      · rename_i hlen
        simp [hlen, Functor.map, Except.map, eq_comm]
      · rename_i hlen
        simp [hlen, Functor.map, Except.map]

theorem toDouble_zero : toDouble 0 = .fin 0 := by decide +kernel

/-- The nanoseconds of a timestamp are an integer exactly when they are a finite double. -/
theorem exists_timestampNs_iff {x : PyFloat} :
    (∃ ns, timestampNs (some x) = .ok ns) ↔ ∃ q, x.mulPos 1000000000 = .fin q := by
  rw [timestampNs]
  cases hx : x.truthy with
  | true =>
      cases x.mulPos 1000000000 <;> simp [PyFloat.toInt]
  | false =>
      have hzero : x = .fin 0 := by simpa [PyFloat.truthy] using hx
      simp [hzero, PyFloat.mulPos, toDouble_zero]

/-- **An EDAC event** is made exactly when `int` takes its numbers, and has the fields
which the patterns captured. -/
theorem makeEdacEvent_eq_ok {seq : Nat} {type : EventType} {m : Match} {combined raw : Text}
    {timestamp : Option PyFloat × Text} {e : HardwareEvent} :
    makeEdacEvent U seq type m combined raw timestamp = .ok e ↔
      ((m.groups 2).getD []).length ≤ maxStrDigits ∧
      (∀ g ∈ edacDetails U combined 3, g.length ≤ maxStrDigits) ∧
      (∀ l ∈ (reEdacLocation U).search combined,
        ((l.groups 1).getD []).length ≤ maxStrDigits) ∧
      (∀ l ∈ (reEdacLocation U).search combined,
        ((l.groups 2).getD []).length ≤ maxStrDigits) ∧
      ∃ ns, timestampNs timestamp.1 = .ok ns ∧
        e = {
          seq := seq
          timestampStr := timestamp.2
          timestampNs := ns
          monotonicS := timestamp.1
          eventType := type
          subsystem := "EDAC"
          controller := (m.groups 1).getD []
          csrow := ((reEdacLocation U).search combined).map
            fun l => U.decimal ((l.groups 1).getD [])
          channel := ((reEdacLocation U).search combined).map
            fun l => U.decimal ((l.groups 2).getD [])
          count := U.decimal ((m.groups 2).getD [])
          page := (edacDetails U combined 1).map hexadecimal
          offset := (edacDetails U combined 2).map hexadecimal
          grain := (edacDetails U combined 3).map U.decimal
          syndrome := edacDetails U combined 4
          pciDevice := none
          aerErrorType := none
          rawMessage := strip raw } := by
  have hgrain : ∀ {r : Option Nat}, (edacDetails U combined 3).mapM U.parseInt = .ok r ↔
      (∀ g ∈ edacDetails U combined 3, g.length ≤ maxStrDigits) ∧
        r = (edacDetails U combined 3).map U.decimal := by
    intro r
    exact mapM_parseInt_eq_ok (f := id)
  simp only [makeEdacEvent, bind_eq_ok, parseInt_eq_ok, hgrain, mapM_parseInt_eq_ok]
  constructor
  · intro ⟨_, ⟨hcount, rfl⟩, _, ⟨hgrain, rfl⟩, _, ⟨hrow, rfl⟩, _, ⟨hchannel, rfl⟩, ns, hns, he⟩
    exact ⟨hcount, hgrain, hrow, hchannel, ns, hns, (Except.ok.inj he).symm⟩
  · intro ⟨hcount, hgrain, hrow, hchannel, ns, hns, he⟩
    exact ⟨_, ⟨hcount, rfl⟩, _, ⟨hgrain, rfl⟩, _, ⟨hrow, rfl⟩, _, ⟨hchannel, rfl⟩, ns, hns,
      congrArg Except.ok he.symm⟩

/-- What a report without a location becomes. -/
theorem makePlainEvent_eq_ok {seq : Nat} {type : EventType} {subsystem : String}
    {device aerType : Option Text} {raw : Text} {timestamp : Option PyFloat × Text}
    {e : HardwareEvent} :
    makePlainEvent seq type subsystem device aerType raw timestamp = .ok e ↔
      ∃ ns, timestampNs timestamp.1 = .ok ns ∧
        e = {
          seq := seq
          timestampStr := timestamp.2
          timestampNs := ns
          monotonicS := timestamp.1
          eventType := type
          subsystem := subsystem
          controller := []
          csrow := none
          channel := none
          count := 1
          page := none
          offset := none
          grain := none
          syndrome := none
          pciDevice := device
          aerErrorType := aerType
          rawMessage := strip raw } := by
  simp only [makePlainEvent, bind_eq_ok]
  constructor
  · intro ⟨ns, hns, he⟩
    exact ⟨ns, hns, (Except.ok.inj he).symm⟩
  · intro ⟨ns, hns, he⟩
    exact ⟨ns, hns, congrArg Except.ok he.symm⟩

/-- The event of a line carries the number it was given. -/
theorem seq_of_reportEvent {seq : Nat} {line : Text} {following : List Text} {r : Report}
    {e : HardwareEvent} (h : reportEvent U seq line following r = .ok e) : e.seq = seq := by
  cases r with
  | edac type m =>
      obtain ⟨_, _, _, _, ns, _, rfl⟩ := makeEdacEvent_eq_ok.mp h
      rfl
  | aer type device =>
      obtain ⟨ns, _, rfl⟩ := makePlainEvent_eq_ok.mp h
      rfl
  | mce =>
      obtain ⟨ns, _, rfl⟩ := makePlainEvent_eq_ok.mp h
      rfl

end Conversions

end FaultOracle.Trace
