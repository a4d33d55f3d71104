import FaultOracle.GoFloats
import FaultOracle.HardwareCollectors
import FaultOracle.TraceParser

/-!
# The three readers of an AER file

`AERCollector.Collect` (`exporter/collectors/aer.go`) reads the error counts of a device by
lines, `parseAERSysfsFile` (`exporter/collectors/aer_subtypes.go`) by pairs of words, and
`_parse_aer_file` (`power_cxl/misc_hardware_collector.py`) sums up the last words of the lines.

A file in the kernel's format has a line with a name and a count for each type of error, and a
line with their total at its end.
-/

namespace FaultOracle.Aer

open GoStrings PythonFloats
open FaultOracle.Exporter (Text parseAERFile float64)
open FaultOracle.Remediation (isPySpace)
open FaultOracle.Trace (CharTables maxStrDigits)

/-- The files of a device. -/
inductive Kind
  | correctable
  | nonfatal
  | fatal
deriving DecidableEq

/-- How the kernel names the total in each. -/
def Kind.totalName : Kind → Text
  | .correctable => "TOTAL_ERR_COR".toList
  | .nonfatal => "TOTAL_ERR_NONFATAL".toList
  | .fatal => "TOTAL_ERR_FATAL".toList

/-! ## The collector -/

/-- The name which `AERCollector.Collect` skips in each. -/
def Kind.skipped : Kind → String
  | .correctable => "TOTAL_ERR_COR"
  | .nonfatal => "TOTAL_ERR_UNCOR"
  | .fatal => "TOTAL_ERR_UNCOR"

/-- The counts which `AERCollector.Collect` emits for a file. -/
def collected (kind : Kind) (text : Text) : List (Text × PyFloat) :=
  match parseAERFile text with
  | none => []
  | some counts => (counts.filter fun item => item.1 ≠ kind.skipped.toList).map fun item =>
      (item.1, float64 item.2)

/-- They are the samples of the file. -/
theorem samples_aerFile {fs : Exporter.FileSystem} {path : Exporter.Path} {text : Text}
    (hread : fs.readFile path = some text) (kind : Kind) (name : String)
    (labels : Text → List Text) :
    (Exporter.aerFile fs path kind.skipped name labels).samples =
      (collected kind text).map fun item => ⟨name, labels item.1, item.2⟩ := by
  rw [Exporter.aerFile, hread, Option.bind_some, collected]
  cases parseAERFile text with
  | none => rfl
  | some counts => simp [List.map_map, Function.comp_def]

/-! ## The pairs of words -/

/-- `aerCorrectableSubtypes`. -/
def aerCorrectableSubtypes : List (Text × Text) :=
  [("RxErr", "receiver_error"), ("BadTLP", "bad_tlp"), ("BadDLLP", "bad_dllp"),
    ("Rollover", "replay_num_rollover"), ("Timeout", "replay_timer_timeout"),
    ("NonFatalErr", "advisory_non_fatal"), ("CorrIntErr", "corrected_internal_error"),
    ("HeaderOF", "header_log_overflow")].map fun p => (p.1.toList, p.2.toList)

/-- `aerNonfatalSubtypes`. -/
def aerNonfatalSubtypes : List (Text × Text) :=
  [("DLP", "data_link_protocol_error"), ("SDES", "surprise_down"), ("TLP", "poisoned_tlp"),
    ("FCP", "flow_control_protocol"), ("CmpltTO", "completion_timeout"),
    ("CmpltAbrt", "completer_abort"), ("UnxCmplt", "unexpected_completion"),
    ("RxOF", "receiver_overflow"), ("MalfTLP", "malformed_tlp"), ("ECRC", "ecrc_error"),
    ("UnsupReq", "unsupported_request"), ("ACSViol", "acs_violation"),
    ("UncorrIntErr", "uncorrectable_internal_error")].map fun p => (p.1.toList, p.2.toList)

/-- `aerFatalSubtypes`. -/
def aerFatalSubtypes : List (Text × Text) :=
  [("DLP", "data_link_protocol_error"), ("SDES", "surprise_down"), ("TLP", "poisoned_tlp"),
    ("MalfTLP", "malformed_tlp")].map fun p => (p.1.toList, p.2.toList)

def Kind.subtypes : Kind → List (Text × Text)
  | .correctable => aerCorrectableSubtypes
  | .nonfatal => aerNonfatalSubtypes
  | .fatal => aerFatalSubtypes

/-- `aerParsedCount`. -/
structure AerParsedCount where
  subtype : Text
  value : PyFloat

/-- The tokens two by two; an odd one at the end is left over. -/
def aerPairs : List Text → List (Text × Text)
  | name :: countStr :: rest => (name, countStr) :: aerPairs rest
  | _ => []

/-- What a pair counts; `TOTAL_ERR_*` entries are skipped. -/
def pairValue (p : Text × Text) : Option PyFloat :=
  if "TOTAL_ERR".toList <+: p.1 then none else parseFloat p.2

section Parse

variable (lower : Char → Char)

/-- The label of an error, its name in lower case when it is not known. -/
def subtypeLabel (subtypeMap : List (Text × Text)) (name : Text) : Text :=
  (subtypeMap.lookup name).getD (name.map lower)

/-- The body of the loop of `parseAERSysfsFile`. -/
def aerCount (subtypeMap : List (Text × Text)) (p : Text × Text) : Option AerParsedCount :=
  (pairValue p).map fun count => ⟨subtypeLabel lower subtypeMap p.1, count⟩

/-- `parseAERSysfsFile`, of what the file holds; `lower` is `unicode.ToLower`. -/
def parseAERSysfsFile (data : Text) (subtypeMap : List (Text × Text)) : List AerParsedCount :=
  (aerPairs (fields data)).filterMap (aerCount lower subtypeMap)

end Parse

/-! ## The last words -/

/-- Universal newlines, which `read_text` turns into `\n`. -/
def universalNewlines : Text → Text
  | '\r' :: '\n' :: rest => '\n' :: universalNewlines rest
  | '\r' :: rest => '\n' :: universalNewlines rest
  | c :: rest => c :: universalNewlines rest
  | [] => []

/-- Where `splitlines` ends a line. -/
def isLineBreak (c : Char) : Bool :=
  [0x0A, 0x0B, 0x0C, 0x0D, 0x1C, 0x1D, 0x1E, 0x85, 0x2028, 0x2029].contains c.toNat

/-- `text.splitlines()`, where there is no `\r` before a `\n`. -/
def splitlines (text : Text) : List Text :=
  let pieces := text.splitOnP isLineBreak
  if pieces.getLast? = some [] then pieces.dropLast else pieces

/-- `line.split()`. -/
def words (line : Text) : List Text := wordsBy isPySpace line

section Python

variable (U : CharTables)

/-- Digits with single underscores between them, without the underscores. -/
def digitGroups (s : Text) : Option Text :=
  let groups := s.splitOn '_'
  if groups.all (fun g => !g.isEmpty && g.all U.isDigit) then some groups.flatten else none

variable {U} in
theorem isDigit_of_ascii {c : Char} (hc : c.isDigit = true) : U.isDigit c = true := by
  have hrange : c.toNat < 128 := by
    simp only [Char.isDigit, Bool.and_eq_true, decide_eq_true_eq, UInt32.le_iff_toNat_le] at hc
    have hle : c.toNat ≤ 57 := hc.2
    omega
  rw [U.isDigit_ascii c hrange, hc]

/-- Digits without underscores. -/
theorem digitGroups_of_digits {s : Text} (hne : s ≠ []) (hs : ∀ c ∈ s, c.isDigit = true) :
    digitGroups U s = some s := by
  have hplain : ∀ c ∈ s, (c == '_') = false := by
    intro c hc
    rw [beq_eq_false_iff_ne]
    exact ne_of_isDigit (hs c hc) (by decide)
  have hall : s.all U.isDigit = true :=
    List.all_eq_true.mpr fun c hc => isDigit_of_ascii (hs c hc)
  rw [digitGroups, List.splitOn_eq_splitOnP, List.splitOnP_eq_singleton hplain]
  simp [hall, hne]

/-- `int(word)`, for a word without white space. -/
def pythonInt (word : Text) : Option Int :=
  match digitGroups U (unsigned word) with
  | none => none
  | some digits =>
      if maxStrDigits < digits.length then none
      else some (if word.head? = some '-' then -(U.decimal digits : Int) else U.decimal digits)

/-- What a line adds to the total. -/
def lineCount (line : Text) : Int :=
  let parts := words line
  if 2 ≤ parts.length then ((parts.getLast?.bind (pythonInt U)).getD 0) else 0

/-- `_parse_aer_file`, of what the file holds. -/
def parseAerFile (text : Text) : Int :=
  ((splitlines (universalNewlines text)).map (lineCount U)).sum

end Python

/-! ## Files in the kernel's format -/

/-- A type of error with its count. -/
structure Entry where
  name : Text
  count : Nat
  name_ne : name ≠ []
  name_dark : ∀ c ∈ name, isPySpace c = false
  name_free : ¬ "TOTAL_ERR".toList <+: name
  count_lt : count < 2 ^ 53

/-- A line is not a name with a count. -/
def Malformed (line : Text) : Prop :=
  ∀ name count, fields line = [name, count] → count.all Char.isDigit = false

/-- A line before the total. -/
inductive Item
  | entry (e : Entry)
  | malformed (line : Text) (plain : '\n' ∉ line) (hline : Malformed line)

/-- A line with a name and a count. -/
def countLine (name : Text) (count : Nat) : Text := name ++ ' ' :: Nat.toDigits 10 count

/-- The line of an item. -/
def Item.line : Item → Text
  | .entry e => countLine e.name e.count
  | .malformed line _ _ => line

/-- The types of errors in the file. -/
def entries (items : List Item) : List Entry :=
  items.filterMap fun
    | .entry e => some e
    | .malformed .. => none

/-- A file in the kernel's format. -/
structure Contents where
  kind : Kind
  items : List Item
  total : Nat
  distinct : ((entries items).map Entry.name).Nodup
  total_lt : total < 2 ^ 64

namespace Contents

variable (f : Contents)

/-- The lines of the file. -/
def lines : List Text := f.items.map Item.line ++ [countLine f.kind.totalName f.total]

/-- The file. -/
def text : Text := f.lines.flatMap fun line => line ++ ['\n']

/-- The sum of the counts. -/
def sum : Nat := ((entries f.items).map Entry.count).sum

end Contents

/-! ## Agreement -/

/-- The sum of floats, if all of them are finite. -/
def floatSum : List PyFloat → Option ℚ
  | [] => some 0
  | .fin q :: rest => (floatSum rest).map (q + ·)
  | _ :: _ => none

/-- All three readers find the sum of the counts, and none of them takes the total for a type
of error. -/
structure Agree (U : CharTables) (lower : Char → Char) (f : Contents) : Prop where
  collected : floatSum ((collected f.kind f.text).map Prod.snd) = some (f.sum : ℚ)
  parsed : floatSum ((parseAERSysfsFile lower f.text f.kind.subtypes).map AerParsedCount.value) =
    some (f.sum : ℚ)
  summed : parseAerFile U f.text = f.sum
  collected_total : ∀ item ∈ Aer.collected f.kind f.text, item.1 ≠ f.kind.totalName
  parsed_total : ∀ p ∈ aerPairs (fields f.text), p.1 = f.kind.totalName →
    aerCount lower f.kind.subtypes p = none

end FaultOracle.Aer
