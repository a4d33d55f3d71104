import FaultOracle.BacktrackingRegex
import FaultOracle.FloatRepr
import FaultOracle.GoStrings
import FaultOracle.SmbiosType17

/-!
# The text of dmidecode

`ParseDMIDecodeOutput` of `exporter/collectors/dimm.go` reads the output of `dmidecode` line
by line.  A `Handle` line closes the record that is open and opens the next; the fields below
a line `Memory Device` are put into the record that is open.

Every `Handle` line opens a record, of whatever type its structure is, and every record that
is closed becomes a DIMM.  So an output gives one DIMM for each of its structures
(`parse_output`), where it should give one for each memory device: `adds_exactly_iff`.
-/

namespace FaultOracle.Dimm

open BacktrackingRegex GoStrings
open PythonFloats (natText)
open Ebpf (Port)

/-! ## Patterns -/

/-- `\s`. -/
def isReSpace (c : Char) : Bool := [' ', '\t', '\n', '\x0c', '\r'].contains c

def isHex (c : Char) : Bool :=
  c.isDigit || ('a' ≤ c && c ≤ 'f') || ('A' ≤ c && c ≤ 'F')

/-- `^Handle\s+(0x[0-9A-Fa-f]+)`. -/
def reDMIHandle : Re :=
  .atStart ++ (Re.lit "Handle".toList ++ Re.plus isReSpace ++
    .group 1 (Re.lit "0x".toList ++ Re.plus isHex))

/-- `^\s+([^:]+):\s+(.*)$`, which matches a whole line. -/
def reDMIField : Re :=
  Re.plus isReSpace ++ .group 1 (Re.plus fun c => c != ':') ++ Re.lit ":".toList ++
    Re.plus isReSpace ++ .group 2 (.star fun c => c != '\n')

/-- A number with a unit behind it: `^(\d+)\s*GB$` and the like, each for a whole text. -/
def reDMINumber (unit : Text) : Re :=
  .group 1 (Re.plus Char.isDigit) ++ .star isReSpace ++ Re.lit unit

def reDMISizeGB : Re := reDMINumber "GB".toList

def reDMISizeMB : Re := reDMINumber "MB".toList

def reDMISpeedMT : Re := reDMINumber "MT/s".toList

def reDMISpeedMHz : Re := reDMINumber "MHz".toList

/-- A submatch, which is there whenever the pattern has matched. -/
def submatch (m : Match) (n : Nat) : Text := (m.groups n).getD []

/-! ## Numbers -/

def hexDigitValue (c : Char) : Nat :=
  if c.isDigit then c.toNat - '0'.toNat
  else if 'a' ≤ c then c.toNat - 'a'.toNat + 10
  else c.toNat - 'A'.toNat + 10

def hexValue (digits : Text) : Nat := digits.foldl (fun n c => 16 * n + hexDigitValue c) 0

/-- The value that `strconv.ParseUint` returns for a number of so many bits, which is the
largest one when the digits overflow; the error is ignored. -/
def saturated (bits value : Nat) : Nat := min value (2 ^ bits - 1)

/-- The largest `int` of a port. -/
def maxInt : Port → Nat
  | .bits32 => 2 ^ 31 - 1
  | .bits64 => 2 ^ 63 - 1

/-- `strconv.Atoi` of decimal digits; the error is ignored. -/
def atoi (port : Port) (digits : Text) : Nat := min (decimalValue digits) (maxInt port)

/-! ## Locations -/

/-- `(?i)` for a small letter; the long s folds to `s`. -/
def foldsTo (c d : Char) : Bool := d == c || d == c.toUpper || (c == 's' && d == 'ſ')

/-- A word of small letters under `(?i)`. -/
def litFold (word : Text) : Re := word.foldr (fun c re => .one (foldsTo c) ++ re) .empty

/-- `(?i)node\s+(\d+)[^0-9]+channel\s+(\d+)[^0-9]+(?:slot|dimm)\s+(\d+)`. -/
def reNodeChanSlot : Re :=
  litFold "node".toList ++ Re.plus isReSpace ++ .group 1 (Re.plus Char.isDigit) ++
    Re.plus (fun c => !c.isDigit) ++ litFold "channel".toList ++ Re.plus isReSpace ++
    .group 2 (Re.plus Char.isDigit) ++ Re.plus (fun c => !c.isDigit) ++
    .alt (litFold "slot".toList) (litFold "dimm".toList) ++ Re.plus isReSpace ++
    .group 3 (Re.plus Char.isDigit)

/-- `(?i)Node(\d+)_Channel(\d+)_Dimm(\d+)`. -/
def reHPE : Re :=
  litFold "node".toList ++ .group 1 (Re.plus Char.isDigit) ++ litFold "_channel".toList ++
    .group 2 (Re.plus Char.isDigit) ++ litFold "_dimm".toList ++
    .group 3 (Re.plus Char.isDigit)

/-- `(?i)DIMM[_\s]?([A-H])(\d+)`. -/
def reLocator : Re :=
  litFold "dimm".toList ++ .opt (.one fun c => c == '_' || isReSpace c) ++
    .group 1 (.one fun c => ('A' ≤ c && c ≤ 'H') || ('a' ≤ c && c ≤ 'h')) ++
    .group 2 (Re.plus Char.isDigit)

/-- `fmt.Sprintf("mc%d", node)`. -/
def controllerName (node : Nat) : Text := 'm' :: 'c' :: natText node

/-- `strings.ToUpper(m[1])[0] - 'A'`. -/
def letterIndex (letter : Text) : Nat := (letter.headD 'A').toUpper.toNat - 'A'.toNat

/-- The assignments under the first two patterns. -/
def assignLocation (port : Port) (m : Match) (d : DIMMInfo Text) : DIMMInfo Text :=
  let node := atoi port (submatch m 1)
  let channel := atoi port (submatch m 2)
  let slot := atoi port (submatch m 3)
  { d with edacController := controllerName node, edacCsrow := slot, edacChannel := channel }

def inferEDACLocation (port : Port) (d : DIMMInfo Text) : DIMMInfo Text :=
  let d := { d with edacCsrow := -1, edacChannel := -1, edacController := [] }
  let bl := d.bankLocator
  match reNodeChanSlot.search bl with
  | some m => assignLocation port m d
  | none =>
      match reHPE.search bl with
      | some m => assignLocation port m d
      | none =>
          match reLocator.search d.locator with
          | some m =>
              { d with
                edacController := "mc0".toList
                edacCsrow := atoi port (submatch m 2)
                edacChannel := letterIndex (submatch m 1) }
          | none => d

/-! ## Fields -/

/-- `case "Size"`. -/
def readSize (val : Text) (d : DIMMInfo Text) : DIMMInfo Text :=
  if val = "No Module Installed".toList ∨ val = "Unknown".toList then { d with sizeMB := 0 }
  else
    match reDMISizeGB.fullMatch val with
    | some sm =>
        let gb := UInt64.ofNat (saturated 64 (decimalValue (submatch sm 1)))
        { d with sizeMB := gb * 1024 }
    | none =>
        match reDMISizeMB.fullMatch val with
        | some sm => { d with sizeMB := UInt64.ofNat (saturated 64 (decimalValue (submatch sm 1))) }
        | none => d

/-- `case "Speed", "Configured Memory Speed"`. -/
def readSpeed (val : Text) (d : DIMMInfo Text) : DIMMInfo Text :=
  match reDMISpeedMT.fullMatch val with
  | some sm => { d with speedMHz := UInt32.ofNat (saturated 32 (decimalValue (submatch sm 1))) }
  | none =>
      match reDMISpeedMHz.fullMatch val with
      | some sm =>
          { d with speedMHz := UInt32.ofNat (saturated 32 (decimalValue (submatch sm 1))) }
      | none => d

/-- The switch over the name of a field. -/
def readField (key val : Text) (d : DIMMInfo Text) : DIMMInfo Text :=
  if key = "Locator".toList then { d with locator := val }
  else if key = "Bank Locator".toList then { d with bankLocator := val }
  else if key = "Size".toList then readSize val d
  else if key = "Type".toList then
    if val ≠ "Unknown".toList then { d with type := val } else d
  else if key = "Speed".toList ∨ key = "Configured Memory Speed".toList then readSpeed val d
  else if key = "Manufacturer".toList then
    if val ≠ "Unknown".toList ∧ val ≠ "Not Specified".toList then { d with manufacturer := val }
    else d
  else if key = "Serial Number".toList then
    if val ≠ "Unknown".toList ∧ val ≠ "Not Specified".toList then { d with serialNumber := val }
    else d
  else if key = "Part Number".toList then { d with partNumber := trimSpace val }
  else d

/-- What a line of an open memory device does to its record. -/
def readLine (line : Text) (d : DIMMInfo Text) : DIMMInfo Text :=
  if trimSpace line = [] then d
  else
    match reDMIField.fullMatch line with
    | none => d
    | some fm => readField (trimSpace (submatch fm 1)) (trimSpace (submatch fm 2)) d

/-! ## The parser -/

/-- The variables of `ParseDMIDecodeOutput`, and the table of the mapper. -/
structure Parser where
  cur : Option (DIMMInfo Text)
  inMemoryDevice : Bool
  dimms : List (DIMMInfo Text)

/-- The record that a `Handle` line opens. -/
def opened (handle : UInt16) : DIMMInfo Text where
  handle := handle
  locator := []
  bankLocator := []
  sizeMB := 0
  type := []
  speedMHz := 0
  manufacturer := []
  serialNumber := []
  partNumber := []
  edacController := []
  edacCsrow := -1
  edacChannel := -1

def flush (port : Port) (s : Parser) : Parser :=
  match s.cur with
  | some cur =>
      { cur := none, inMemoryDevice := false, dimms := s.dimms ++ [inferEDACLocation port cur] }
  | none => { s with inMemoryDevice := false }

/-- The handle of a `Handle` line. -/
def handleOf (line : Text) : Option UInt16 :=
  match reDMIHandle.matchStart line with
  | none => none
  | some hm => some (UInt16.ofNat (saturated 16 (hexValue ((submatch hm 1).drop 2))))

/-- One turn of the loop over the lines. -/
def parseLine (port : Port) (s : Parser) (line : Text) : Parser :=
  match handleOf line with
  | some handle => { flush port s with cur := some (opened handle) }
  | none =>
      if trimSpace line = "Memory Device".toList then { s with inMemoryDevice := true }
      else
        match s.inMemoryDevice, s.cur with
        | true, some cur => { s with cur := some (readLine line cur) }
        | _, _ => s

/-- What is read: a text, and whether reading then fails. -/
structure Reader where
  text : Text
  fails : Bool

/-- The table after parsing, and whether an error was returned. -/
def parseDMIDecodeOutput (port : Port) (dimms : List (DIMMInfo Text)) (r : Reader) :
    List (DIMMInfo Text) × Bool :=
  let scan := scanLines r.text
  let s := flush port (scan.lines.foldl (parseLine port) ⟨none, false, dimms⟩)
  (s.dimms, scan.tooLong || r.fails)

/-! ## The table when the open record is closed -/

/-- The table, with the open record at its end. -/
def Parser.closed (port : Port) (s : Parser) : List (DIMMInfo Text) :=
  s.dimms ++ (s.cur.map (inferEDACLocation port)).toList

theorem dimms_flush (port : Port) (s : Parser) : (flush port s).dimms = s.closed port := by
  unfold flush Parser.closed
  cases s.cur with
  | none => exact (List.append_nil _).symm
  | some cur => rfl

/-- A `Handle` line closes the open record and opens the next. -/
theorem parseLine_handle (port : Port) {line : Text} {handle : UInt16}
    (h : handleOf line = some handle) (s : Parser) :
    parseLine port s line = ⟨some (opened handle), false, s.closed port⟩ := by
  rw [parseLine, h, ← dimms_flush]
  unfold flush
  cases s.cur <;> rfl

end FaultOracle.Dimm
