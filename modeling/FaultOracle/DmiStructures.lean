import FaultOracle.DmiDecode

/-!
# Structures in the text of dmidecode

An output of dmidecode is a preamble and the structures of the DMI table, each with its
`Handle` line, its title and the lines below it; the title of a structure of type 17 is
`Memory Device`.  `parse_output` says what the parser makes of it: one entry for each
structure, of its own lines only.  The entry of a memory device is the DIMM that its lines
describe (`entryOf_memoryDevice`), and those of the other structures should not be there.
-/

namespace FaultOracle.Dimm

open BacktrackingRegex GoStrings
open PythonFloats (natText)
open Ebpf (Port)

/-! ## Outputs -/

/-- A line that opens no record. -/
def Plain (line : Text) : Prop := '\n' ∉ line ∧ handleOf (dropCR line) = none

instance (line : Text) : Decidable (Plain line) := inferInstanceAs (Decidable (_ ∧ _))

/-- A structure: the header of its `Handle` line, its title, and the lines below it. -/
structure DmiStructure where
  handle : UInt16
  dmiType : UInt8
  length : UInt8
  title : Text
  body : List Text
  plain : ∀ line ∈ title :: body, Plain line
  title_iff : trimSpace (dropCR title) = "Memory Device".toList ↔ dmiType = 17

/-- `%04X`. -/
def hex4 (n : Nat) : Text :=
  [hexDigit (n / 4096 % 16), hexDigit (n / 256 % 16), hexDigit (n / 16 % 16), hexDigit (n % 16)]

/-- What a `Handle` line says behind the handle. -/
def typeAndLength (s : DmiStructure) : Text :=
  ", DMI type ".toList ++ natText s.dmiType.toNat ++ ", ".toList ++ natText s.length.toNat ++
    " bytes".toList

def handleLine (s : DmiStructure) : Text :=
  ("Handle".toList ++ [' '] ++ ("0x".toList ++ hex4 s.handle.toNat)) ++ typeAndLength s

def DmiStructure.lines (s : DmiStructure) : List Text := handleLine s :: s.title :: s.body

structure DmiOutput where
  preamble : List Text
  structures : List DmiStructure
  plain : ∀ line ∈ preamble, Plain line

def DmiOutput.lines (o : DmiOutput) : List Text :=
  o.preamble ++ o.structures.flatMap DmiStructure.lines

def DmiOutput.text (o : DmiOutput) : Text := o.lines.flatMap fun line => line ++ ['\n']

/-- The DIMM that the lines of a memory device describe. -/
def dimmOf (port : Port) (s : DmiStructure) : DIMMInfo Text :=
  inferEDACLocation port
    ((s.body.map dropCR).foldl (fun d line => readLine line d) (opened s.handle))

/-- Parsing succeeds and adds the DIMMs of the memory devices, in their order. -/
def AddsExactly (port : Port) (dimms : List (DIMMInfo Text)) (o : DmiOutput) : Prop :=
  parseDMIDecodeOutput port dimms ⟨o.text, false⟩ =
    (dimms ++ (o.structures.filter fun s => s.dmiType = 17).map (dimmOf port), false)

/-! ## Handle lines -/

/-- A digit is written as a hexadecimal digit of its value. -/
theorem hexDigit_ok : ∀ d < 16, hexDigitValue (hexDigit d) = d ∧ isHex (hexDigit d) = true := by
  decide +kernel

/-- A handle is read back from its four digits. -/
theorem hexValue_hex4 {n : Nat} (hn : n < 2 ^ 16) : hexValue (hex4 n) = n := by
  have hdigit : ∀ d, hexDigitValue (hexDigit (d % 16)) = d % 16 :=
    fun d => (hexDigit_ok (d % 16) (Nat.mod_lt _ (by decide))).1
  simp only [hexValue, hex4, List.foldl_cons, List.foldl_nil, hdigit]
  omega

/-- A handle is written with hexadecimal digits. -/
theorem isHex_hex4 (n : Nat) : ∀ c ∈ hex4 n, isHex c = true := by
  have hdigit : ∀ d, isHex (hexDigit (d % 16)) = true :=
    fun d => (hexDigit_ok (d % 16) (Nat.mod_lt _ (by decide))).2
  simp [hex4, hdigit]

section Ends

variable {front tail : Text} {c : Char}

/-- The last character of a text is the last of its tail. -/
theorem getLast?_append_of (h : tail.getLast? = some c) (front : Text) :
    (front ++ tail).getLast? = some c := by
  rw [List.getLast?_append, h, Option.some_or]

/-- The first character of a text is the first of its front. -/
theorem head?_append_of (h : front.head? = some c) (tail : Text) :
    (front ++ tail).head? = some c := by
  rw [List.head?_append, h, Option.some_or]

/-- A line keeps an end that is no carriage return. -/
theorem dropCR_append (htail : tail.getLast? = some c) (hc : c ≠ '\r') (line : Text) :
    dropCR (line ++ tail) = line ++ tail := by
  rw [dropCR, getLast?_append_of htail line, if_neg (by simpa using hc)]

end Ends

/-- The handle which the pattern takes from a header line. -/
theorem handleOf_header {digits rest : Text} (hne : digits ≠ [])
    (hhex : ∀ c ∈ digits, isHex c = true) (hrest : Stops isHex rest) :
    handleOf (("Handle".toList ++ [' '] ++ ("0x".toList ++ digits)) ++ rest) =
      some (UInt16.ofNat (saturated 16 (hexValue digits))) := by
  have hword : Reads (Re.lit "Handle".toList) "Handle".toList
      ([' '] ++ (("0x".toList ++ digits) ++ rest)) id := reads_lit _ _
  have hblank : Reads (Re.plus isReSpace) [' '] (("0x".toList ++ digits) ++ rest) id :=
    reads_plus (List.cons_ne_nil _ _) (List.all_eq_true.mp (by decide)) (by simp [Stops, isReSpace])
  have hzerox : Reads (Re.lit "0x".toList) "0x".toList (digits ++ rest) id := reads_lit _ _
  have hdigits : Reads (Re.plus isHex) digits rest id := reads_plus hne hhex hrest
  have hline := (hword.append hblank).append ((hzerox.append hdigits).group 1)
  have hsub : submatch ⟨[], rest, Function.update (fun _ => none) 1
      (some ("0x".toList ++ digits))⟩ 1 = "0x".toList ++ digits := by
    simp only [submatch, Function.update_self, Option.getD_some]
  rw [handleOf, reDMIHandle, hline.matchStart]
  show some (UInt16.ofNat (saturated 16 (hexValue ((submatch ⟨[], rest, Function.update
    (fun _ => none) 1 (some ("0x".toList ++ digits))⟩ 1).drop 2)))) = _
  rw [hsub]
  rfl

/-- The header line of a structure names its handle. -/
theorem handleOf_handleLine (s : DmiStructure) :
    handleOf (dropCR (handleLine s)) = some s.handle := by
  have hend : " bytes".toList.getLast? = some 's' := by decide
  have hcomma : ", DMI type ".toList.head? = some ',' := by decide
  have hlast : (typeAndLength s).getLast? = some 's' := by
    unfold typeAndLength
    exact getLast?_append_of hend _
  have hfirst : (typeAndLength s).head? = some ',' := by
    unfold typeAndLength
    exact head?_append_of (head?_append_of (head?_append_of (head?_append_of hcomma _) _) _) _
  have hstops : Stops isHex (typeAndLength s) := by
    intro c hc
    rw [hfirst] at hc
    cases hc
    decide
  have hlt : s.handle.toNat < 2 ^ 16 := s.handle.toNat_lt
  have hne : hex4 s.handle.toNat ≠ [] := List.cons_ne_nil _ _
  have hfits : saturated 16 s.handle.toNat = s.handle.toNat := Nat.min_eq_left (by omega)
  have hread := handleOf_header hne (isHex_hex4 s.handle.toNat) hstops
  rw [hexValue_hex4 hlt, hfits, UInt16.ofNat_toNat] at hread
  have hcr : 's' ≠ '\r' := by decide
  have hkept := dropCR_append hlast hcr
    ("Handle".toList ++ [' '] ++ ("0x".toList ++ hex4 s.handle.toNat))
  unfold handleLine
  rw [hkept]
  exact hread

/-! ## Entries -/

/-- What a line that opens no record does to the record that is open, and whether it is in
a memory device. -/
def recordLine (r : DIMMInfo Text × Bool) (line : Text) : DIMMInfo Text × Bool :=
  if trimSpace line = "Memory Device".toList then (r.1, true)
  else if r.2 then (readLine line r.1, true)
  else r

/-- The entry that the parser makes of a structure. -/
def entryOf (port : Port) (s : DmiStructure) : DIMMInfo Text :=
  inferEDACLocation port
    (((s.title :: s.body).map dropCR).foldl recordLine (opened s.handle, false)).1

/-- A line which is no header is recorded in the open entry. -/
theorem parseLine_plain (port : Port) {line : Text} (h : handleOf line = none)
    (r : DIMMInfo Text × Bool) (dimms : List (DIMMInfo Text)) :
    parseLine port ⟨some r.1, r.2, dimms⟩ line =
      ⟨some (recordLine r line).1, (recordLine r line).2, dimms⟩ := by
  obtain ⟨d, inside⟩ := r
  rw [parseLine, h, recordLine]
  by_cases htitle : trimSpace line = "Memory Device".toList
  · simp only [htitle, if_true]
  · simp only [htitle, if_false]
    cases inside <;> rfl

/-- Lines which are no headers are recorded in the open entry. -/
theorem foldl_parseLine_plain (port : Port) {lines : List Text}
    (h : ∀ line ∈ lines, handleOf line = none) (r : DIMMInfo Text × Bool)
    (dimms : List (DIMMInfo Text)) :
    lines.foldl (parseLine port) ⟨some r.1, r.2, dimms⟩ =
      ⟨some (lines.foldl recordLine r).1, (lines.foldl recordLine r).2, dimms⟩ := by
  induction lines generalizing r with
  | nil => rfl
  | cons line lines ih =>
      rw [List.foldl_cons, parseLine_plain port (h line List.mem_cons_self), List.foldl_cons]
      exact ih (fun l hl => h l (List.mem_cons_of_mem _ hl)) (recordLine r line)

/-- **One structure.**  Its `Handle` line closes what was open, and its entry is open
afterwards. -/
theorem closed_structure (port : Port) (s : DmiStructure) (st : Parser) :
    ((s.lines.map dropCR).foldl (parseLine port) st).closed port =
      st.closed port ++ [entryOf port s] := by
  have hplain : ∀ line ∈ (s.title :: s.body).map dropCR, handleOf line = none := by
    intro line hline
    obtain ⟨l, hl, rfl⟩ := List.mem_map.mp hline
    exact (s.plain l hl).2
  have hopen : parseLine port st (dropCR (handleLine s)) =
      ⟨some (opened s.handle), false, st.closed port⟩ :=
    parseLine_handle port (handleOf_handleLine s) st
  rw [DmiStructure.lines, List.map_cons, List.foldl_cons, hopen,
    foldl_parseLine_plain port hplain (opened s.handle, false)]
  rfl

/-- After the lines of some structures there is one entry for each. -/
theorem closed_structures (port : Port) (ss : List DmiStructure) (st : Parser) :
    (((ss.flatMap DmiStructure.lines).map dropCR).foldl (parseLine port) st).closed port =
      st.closed port ++ ss.map (entryOf port) := by
  induction ss generalizing st with
  | nil => exact (List.append_nil _).symm
  | cons s ss ih =>
      rw [List.flatMap_cons, List.map_append, List.foldl_append, ih, closed_structure,
        List.append_assoc]
      rfl

/-- A line that opens no record leaves none open. -/
theorem parseLine_closed (port : Port) {line : Text} (h : handleOf line = none) {st : Parser}
    (hst : st.cur = none) :
    (parseLine port st line).cur = none ∧ (parseLine port st line).dimms = st.dimms := by
  obtain ⟨cur, inside, dimms⟩ := st
  obtain rfl : cur = none := hst
  rw [parseLine, h]
  by_cases htitle : trimSpace line = "Memory Device".toList
  · simp only [htitle, if_true]
    exact ⟨trivial, trivial⟩
  · simp only [htitle, if_false]
    cases inside <;> exact ⟨trivial, trivial⟩

/-- Before the first `Handle` line nothing is open. -/
theorem closed_preamble (port : Port) {lines : List Text}
    (h : ∀ line ∈ lines, handleOf line = none) {st : Parser} (hst : st.cur = none) :
    (lines.foldl (parseLine port) st).closed port = st.closed port := by
  induction lines generalizing st with
  | nil => rfl
  | cons line lines ih =>
      obtain ⟨hcur, hdimms⟩ := parseLine_closed port (h line List.mem_cons_self) hst
      rw [List.foldl_cons, ih (fun l hl => h l (List.mem_cons_of_mem _ hl)) hcur]
      simp only [Parser.closed, hcur, hdimms, hst]

/-! ## A whole output -/

theorem newline_not_mem_natText (n : Nat) : '\n' ∉ natText n := by
  intro h
  have hdigit : '\n'.isDigit = true := Nat.isDigit_of_mem_toDigits (by decide) (by decide) h
  exact absurd hdigit (by decide)

theorem newline_not_mem_hex4 (n : Nat) : '\n' ∉ hex4 n := by
  intro h
  exact absurd (isHex_hex4 n '\n' h) (by decide)

/-- A header line has no newline. -/
theorem handleLine_newline (s : DmiStructure) : '\n' ∉ handleLine s := by
  have hhandle : '\n' ∉ "Handle".toList := by decide
  have hzerox : '\n' ∉ "0x".toList := by decide
  have htype : '\n' ∉ ", DMI type ".toList := by decide
  have hcomma : '\n' ∉ ", ".toList := by decide
  have hbytes : '\n' ∉ " bytes".toList := by decide
  have hblank : '\n' ∉ [' '] := by decide
  unfold handleLine typeAndLength
  simp only [List.mem_append, not_or]
  exact ⟨⟨⟨hhandle, hblank⟩, hzerox, newline_not_mem_hex4 _⟩,
    ⟨⟨⟨htype, newline_not_mem_natText _⟩, hcomma⟩, newline_not_mem_natText _⟩, hbytes⟩

theorem newline_not_mem_lines (o : DmiOutput) : ∀ line ∈ o.lines, '\n' ∉ line := by
  intro line hline
  rcases List.mem_append.mp hline with hpre | hstr
  · exact (o.plain line hpre).1
  · obtain ⟨s, -, hs⟩ := List.mem_flatMap.mp hstr
    rcases List.mem_cons.mp hs with rfl | hs
    · exact handleLine_newline s
    · exact (s.plain line hs).1

/-- What the scanner gives of an output. -/
theorem scan_text (o : DmiOutput) :
    scanLines o.text = ⟨(o.lines.takeWhile fitsBuffer).map dropCR,
      o.lines.any fun line => !fitsBuffer line⟩ := by
  rw [scanLines, DmiOutput.text, rawLines_flatMap (newline_not_mem_lines o)]

/-- **What the parser makes of an output** whose lines fit into its buffer: an entry for each
structure, of whatever type. -/
theorem parse_output (port : Port) (dimms : List (DIMMInfo Text)) {o : DmiOutput}
    (hfits : ∀ line ∈ o.lines, fitsBuffer line = true) :
    parseDMIDecodeOutput port dimms ⟨o.text, false⟩ =
      (dimms ++ o.structures.map (entryOf port), false) := by
  have hall : o.lines.takeWhile fitsBuffer = o.lines := List.takeWhile_eq_self_iff.mpr hfits
  have hshort : (o.lines.any fun line => !fitsBuffer line) = false := by
    rw [List.any_eq_false]
    intro line hline
    simp [hfits line hline]
  have hplain : ∀ line ∈ o.preamble.map dropCR, handleOf line = none := by
    intro line hline
    obtain ⟨l, hl, rfl⟩ := List.mem_map.mp hline
    exact (o.plain l hl).2
  rw [parseDMIDecodeOutput, scan_text, hall, hshort]
  simp only [Bool.or_false, dimms_flush]
  rw [DmiOutput.lines, List.map_append, List.foldl_append, closed_structures,
    closed_preamble port hplain rfl]
  simp [Parser.closed]

/-! ## Memory devices -/

/-- Trimming keeps what is no white space. -/
theorem mem_trimSpace {line : Text} {c : Char} (hc : c ∈ line) (hdark : isSpace c = false) :
    c ∈ trimSpace line := by
  have hdrop : ∀ s : Text, c ∈ s → c ∈ s.dropWhile isSpace := by
    intro s hs
    rw [← List.takeWhile_append_dropWhile (p := isSpace) (l := s)] at hs
    rcases List.mem_append.mp hs with h | h
    · rw [List.mem_takeWhile_imp h] at hdark
      cases hdark
    · exact h
  exact List.mem_reverse.mpr (hdrop _ (List.mem_reverse.mpr (hdrop line hc)))

/-- A field has a colon. -/
theorem colon_of_field {line : Text} {m : Match} (h : reDMIField.fullMatch line = some m) :
    ':' ∈ line := by
  obtain ⟨f, hf, -⟩ := fullMatch_captures h
  obtain ⟨_, _, _, _, ⟨_, _, _, _, ⟨before, colon, _, _, _, hcolon, rfl, _⟩, _, rfl, _⟩, _, rfl,
    _⟩ := hf
  have hmem : ':' ∈ colon := by
    rw [(captures_lit.mp hcolon).1]
    decide
  exact List.mem_append_left _ (List.mem_append_left _ (List.mem_append_right _ hmem))

/-- A title inside a structure sets no field. -/
theorem readLine_title {line : Text} (h : trimSpace line = "Memory Device".toList)
    (d : DIMMInfo Text) : readLine line d = d := by
  unfold readLine
  split
  · rfl
  · split
    · rfl
    · rename_i m hm
      have hcolon := mem_trimSpace (colon_of_field hm) (by decide)
      rw [h] at hcolon
      exact absurd hcolon (by decide)

/-- Inside a memory device every line is read. -/
theorem foldl_recordLine_inside (lines : List Text) (d : DIMMInfo Text) :
    lines.foldl recordLine (d, true) = (lines.foldl (fun d line => readLine line d) d, true) := by
  induction lines generalizing d with
  | nil => rfl
  | cons line lines ih =>
      have hline : recordLine (d, true) line = (readLine line d, true) := by
        unfold recordLine
        by_cases htitle : trimSpace line = "Memory Device".toList
        · rw [if_pos htitle, readLine_title htitle]
        · rw [if_neg htitle, if_pos rfl]
      rw [List.foldl_cons, hline, ih, List.foldl_cons]

/-- **The entry of a memory device** is its DIMM. -/
theorem entryOf_memoryDevice (port : Port) {s : DmiStructure} (h : s.dmiType = 17) :
    entryOf port s = dimmOf port s := by
  have htitle : recordLine (opened s.handle, false) (dropCR s.title) =
      (opened s.handle, true) := by
    rw [recordLine, if_pos (s.title_iff.mpr h)]
  rw [entryOf, dimmOf, List.map_cons, List.foldl_cons, htitle, foldl_recordLine_inside]

/-- **Outputs of dmidecode.**  Parsing adds the DIMMs of the memory devices and nothing else,
if and only if all structures are memory devices, and all lines fit into the buffer. -/
theorem adds_exactly_iff (port : Port) (dimms : List (DIMMInfo Text)) (o : DmiOutput) :
    AddsExactly port dimms o ↔
      (∀ s ∈ o.structures, s.dmiType = 17) ∧ ∀ line ∈ o.lines, fitsBuffer line = true := by
  constructor
  · intro h
    have hfits : ∀ line ∈ o.lines, fitsBuffer line = true := by
      have herror := congrArg Prod.snd h
      rw [parseDMIDecodeOutput, scan_text] at herror
      simpa using herror
    rw [AddsExactly, parse_output port dimms hfits] at h
    have hlength := congrArg List.length (List.append_cancel_left (congrArg Prod.fst h))
    rw [List.length_map, List.length_map] at hlength
    have hall := List.length_filter_eq_length_iff.mp hlength.symm
    exact ⟨fun s hs => by simpa using hall s hs, hfits⟩
  · intro ⟨hdevices, hfits⟩
    have hfilter : o.structures.filter (fun s => s.dmiType = 17) = o.structures :=
      List.filter_eq_self.mpr fun s hs => by simpa using hdevices s hs
    have hentries : o.structures.map (entryOf port) = o.structures.map (dimmOf port) :=
      List.map_congr_left fun s hs => entryOf_memoryDevice port (hdevices s hs)
    rw [AddsExactly, parse_output port dimms hfits, hfilter, hentries]

/-- The structure which dmidecode prints before the memory devices. -/
def memoryArray : DmiStructure where
  handle := 0x10
  dmiType := 16
  length := 23
  title := "Physical Memory Array".toList
  body := ["\tLocation: System Board".toList, []]
  plain := by decide +kernel
  title_iff := by decide +kernel

def arrayOutput : DmiOutput := ⟨["# dmidecode 3.3".toList, []], [memoryArray], by decide +kernel⟩

/-- The array of a board is listed as one DIMM more. -/
theorem memory_array_listed : ¬ AddsExactly .bits64 [] arrayOutput := by
  intro h
  have hentries := parse_output .bits64 [] (o := arrayOutput) (by decide +kernel)
  rw [AddsExactly, hentries] at h
  exact absurd (congrArg (fun result => result.1.length) h) (by decide)

end FaultOracle.Dimm
