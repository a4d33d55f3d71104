import Mathlib.Data.List.Count
import Mathlib.Tactic.IntervalCases
import FaultOracle.InsertionDict
import FaultOracle.RecordChains

/-!
# The two readers of the BERT

`exporter/collectors/apei.go` counts the CPER records of the boot error region by severity,
`apei/bert_reader.py` lists them.  Each cuts the region out of the table in its own way and
walks its records under its own size of the record header: 128 bytes in Go, and in Python what
`struct.calcsize` makes of the header's format, which is 100.

`tables_agree_iff` says for which tables the two tell the same.
-/

namespace FaultOracle.Bert

open InsertionDict RecordChains

abbrev Bytes := List UInt8

/-! ## Reading bytes -/

/-- The number which bytes stand for, least significant byte first. -/
def littleEndian : Bytes → Nat
  | [] => 0
  | b :: rest => b.toNat + 256 * littleEndian rest

/-- `<H` at an offset. -/
def uint16At (data : Bytes) (offset : Nat) : Nat := littleEndian ((data.drop offset).take 2)

/-- `binary.LittleEndian.Uint32(data[offset:])`, and `<I` at an offset. -/
def uint32At (data : Bytes) (offset : Nat) : Nat := littleEndian ((data.drop offset).take 4)

/-- `binary.LittleEndian.Uint64(data[offset:])`, and `<Q` at an offset. -/
def uint64At (data : Bytes) (offset : Nat) : Nat := littleEndian ((data.drop offset).take 8)

/-- `data[start:stop]` in Python, where both are cut to the length. -/
def slice (data : Bytes) (start stop : Nat) : Bytes := (data.take stop).drop start

/-- The size of a format character, without alignment. -/
def formatSize : Char → Nat
  | 's' => 1
  | 'B' => 1
  | 'H' => 2
  | 'I' => 4
  | 'Q' => 8
  | _ => 0

/-- `struct.calcsize`, behind a repeat count if there is one. -/
def calcsizeFrom : Option Nat → List Char → Nat
  | _, [] => 0
  | repeated, c :: rest =>
      if c.isDigit then calcsizeFrom (some (10 * repeated.getD 0 + (c.toNat - '0'.toNat))) rest
      else repeated.getD 1 * formatSize c + calcsizeFrom none rest

/-- `struct.calcsize(fmt)`. -/
def calcsize (fmt : String) : Nat := calcsizeFrom none fmt.toList

/-! ## Severities -/

/-- The label of a severity; the two readers differ in how they write an unknown one. -/
def severityLabel (unknown : Nat → String) (s : Nat) : String :=
  match s with
  | 0 => "recoverable"
  | 1 => "fatal"
  | 2 => "corrected"
  | 3 => "informational"
  | s => unknown s

/-! ## The Go collector -/

def acpiTableHeaderSize : Nat := 36

def bertBodySize : Nat := 12

def cperMinSize : Nat := 128

def cperSignature : Nat := 0x52455043

/-- `severityName`. -/
def severityName (s : Nat) : String := severityLabel (fun s => "unknown_" ++ toString s) s

/-- `counts[name]++`. -/
def increment (counts : List (String × Nat)) (name : String) : List (String × Nat) :=
  setItem name ((counts.lookup name).getD 0 + 1) counts

/-- The loop of `parseBERTRecordCounts`. -/
def countRecords (region : Bytes) (offset : Nat) (counts : List (String × Nat)) :
    List (String × Nat) :=
  if _ : offset + cperMinSize ≤ region.length then
    if uint32At region offset ≠ cperSignature then counts
    else
      let recordLength := uint32At region (offset + 20)
      let severityRaw := uint32At region (offset + 24)
      let counts := increment counts (severityName severityRaw)
      if _ : recordLength < cperMinSize then counts
      else countRecords region (offset + recordLength) counts
  else counts
termination_by region.length - offset
decreasing_by
  simp only [cperMinSize] at *
  omega

def regionLength (data : Bytes) : Nat := uint32At data acpiTableHeaderSize

def regionOffset (data : Bytes) : Nat := uint64At data (acpiTableHeaderSize + 4)

/-- The table holds the boot error region it names, with room for a header. -/
def Sliced (data : Bytes) : Prop :=
  0 < regionOffset data ∧ regionOffset data + cperMinSize ≤ data.length ∧
    regionOffset data < data.length ∧ regionLength data ≤ data.length - regionOffset data

instance (data : Bytes) : Decidable (Sliced data) := by
  unfold Sliced
  infer_instance

/-- The region which `parseBERTRecordCounts` walks. -/
def countedRegion (data : Bytes) : Bytes :=
  if Sliced data then slice data (regionOffset data) (regionOffset data + regionLength data)
  else data.drop (acpiTableHeaderSize + bertBodySize)

/-- `parseBERTRecordCounts`. -/
def parseBERTRecordCounts (data : Bytes) : Except String (List (String × Nat)) :=
  if data.length < acpiTableHeaderSize + bertBodySize then
    .error ("BERT table too short (" ++ toString data.length ++ " bytes)")
  else if data.length < regionOffset data then
    .error ("BERT: regionOffset " ++ toString (regionOffset data) ++ " exceeds table size " ++
      toString data.length)
  else .ok (countRecords (countedRegion data) 0 [])

/-! ## The Python reader -/

/-- `CPER_SECTION_TYPES`. -/
def cperSectionTypes : List (Bytes × String) :=
  [([0xd9, 0x95, 0xe9, 0x54, 0x94, 0x7c, 0x43, 0x53, 0x97, 0xc9, 0xdc, 0x3e, 0x8a, 0x69, 0x24,
      0x0c], "processor_generic"),
    ([0x1c, 0x15, 0x10, 0x2f, 0x5c, 0xda, 0x4f, 0x43, 0xb1, 0x8a, 0xdc, 0xa4, 0xa3, 0xf9, 0x36,
      0x0e], "platform_memory"),
    ([0xe4, 0x29, 0xfa, 0xf1, 0xa2, 0x38, 0x40, 0xdb, 0xb1, 0x0b, 0x55, 0xff, 0x6a, 0xaa, 0x68,
      0xe4], "pcie"),
    ([0x81, 0x21, 0x2a, 0x96, 0x64, 0xc8, 0x43, 0xb2, 0x9e, 0xf1, 0x9f, 0x7d, 0x28, 0x85, 0xb2,
      0xd0], "firmware_error"),
    ([0x5b, 0x51, 0xfe, 0x6c, 0x76, 0xd1, 0x4e, 0x9e, 0x8c, 0x1d, 0xd2, 0xb5, 0xd4, 0x82, 0x0e,
      0x83], "dmar_generic")]

/-- `SEVERITY_MAP.get(severity_raw, f"unknown({severity_raw})")`. -/
def severity (severityRaw : Nat) : String :=
  severityLabel (fun s => "unknown(" ++ toString s ++ ")") severityRaw

def ACPI_TABLE_HEADER_SIZE : Nat := calcsize "<4sIBB6s8sI4sI"

def BERT_BODY_SIZE : Nat := calcsize "<IQ"

def CPER_HEADER_SIZE : Nat := calcsize "<16sIHBB16sQIIQQ16sI4sI"

def CPER_SECTION_DESC_SIZE : Nat := calcsize "<IH16sIIBBHI"

/-- An entry of `sections`. -/
structure CperSection where
  type : String
  length : Nat
  offsetInRecord : Nat
deriving DecidableEq

/-- An entry of `records`. -/
structure CperRecord where
  severity : String
  sectionCount : Nat
  recordLength : Nat
  sections : List CperSection
deriving DecidableEq

/-- The loop over the section descriptors, `count` of which are still to be read. -/
def cperSections (regionData : Bytes) : Nat → Nat → List CperSection
  | 0, _ => []
  | count + 1, descOffset =>
      if regionData.length < descOffset + CPER_SECTION_DESC_SIZE then []
      else
        { type := (cperSectionTypes.lookup
            (slice regionData (descOffset + 4) (descOffset + 20))).getD "unknown"
          length := uint16At regionData (descOffset + 4)
          offsetInRecord := uint32At regionData descOffset } ::
            cperSections regionData count (descOffset + CPER_SECTION_DESC_SIZE)

/-- The record at an offset. -/
def cperRecord (regionData : Bytes) (offset : Nat) : CperRecord where
  severity := severity (uint32At regionData (offset + 24))
  sectionCount := uint16At regionData (offset + 18)
  recordLength := uint32At regionData (offset + 20)
  sections := cperSections regionData (uint16At regionData (offset + 18)) (offset + 128)

/-- `b"CPER"`. -/
def cperMark : Bytes := [0x43, 0x50, 0x45, 0x52]

/-- The header as it is unpacked has a hundred bytes. -/
theorem cperHeaderSize_eq : CPER_HEADER_SIZE = 100 := by decide

/-- So it has some. -/
theorem cperHeaderSize_pos : 0 < CPER_HEADER_SIZE := by decide

/-- And so has the header of the exporter. -/
theorem cperMinSize_pos : 0 < cperMinSize := by decide

/-- Which is no shorter. -/
theorem cperHeaderSize_le : CPER_HEADER_SIZE ≤ cperMinSize := by decide

/-- Both readers expect the same header of the table. -/
theorem bertHeader_eq :
    ACPI_TABLE_HEADER_SIZE + BERT_BODY_SIZE = acpiTableHeaderSize + bertBodySize := by decide

/-- Both readers know the same table header. -/
theorem acpiTableHeaderSize_eq : ACPI_TABLE_HEADER_SIZE = acpiTableHeaderSize := by decide

/-- The loop of `parse_cper_records`. -/
def cperRecordsFrom (regionData : Bytes) (offset : Nat) : List CperRecord :=
  if _ : offset + CPER_HEADER_SIZE ≤ regionData.length then
    if slice regionData offset (offset + 4) ≠ cperMark then []
    else
      cperRecord regionData offset ::
        if _ : uint32At regionData (offset + 20) < CPER_HEADER_SIZE then []
        else cperRecordsFrom regionData (offset + uint32At regionData (offset + 20))
  else []
termination_by regionData.length - offset
decreasing_by
  simp only [cperHeaderSize_eq] at *
  omega

/-- `parse_cper_records`. -/
def parseCperRecords (regionData : Bytes) : List CperRecord := cperRecordsFrom regionData 0

/-- `parse_bert_table`, the length and the offset of the boot error region. -/
def parseBertTable (data : Bytes) : Except String (Nat × Nat) :=
  if data.length < ACPI_TABLE_HEADER_SIZE + BERT_BODY_SIZE then
    .error ("BERT table too short: " ++ toString data.length ++ " bytes")
  else
    .ok (uint32At data ACPI_TABLE_HEADER_SIZE, uint64At data (ACPI_TABLE_HEADER_SIZE + 4))

/-- `region_data` of `main`. -/
def regionData (raw : Bytes) (length offset : Nat) : Bytes :=
  if 0 < offset then slice raw offset (offset + length)
  else raw.drop (ACPI_TABLE_HEADER_SIZE + BERT_BODY_SIZE)

/-- The records which `main` emits. -/
def bertRecords (raw : Bytes) : Except String (List CperRecord) :=
  (parseBertTable raw).map fun region => parseCperRecords (regionData raw region.1 region.2)

/-! ## Labels -/

/-- The first character of a label. -/
def labelHead (s : Nat) : Char :=
  match s with
  | 0 => 'r'
  | 1 => 'f'
  | 2 => 'c'
  | 3 => 'i'
  | _ => 'u'

/-- From four on a severity is unknown. -/
theorem severityLabel_of_four_le {unknown : Nat → String} {s : Nat} (hs : 4 ≤ s) :
    severityLabel unknown s = unknown s := by
  obtain ⟨s, rfl⟩ := Nat.exists_eq_add_of_le' hs
  rfl

/-- And its label begins so. -/
theorem labelHead_of_four_le {s : Nat} (hs : 4 ≤ s) : labelHead s = 'u' := by
  obtain ⟨s, rfl⟩ := Nat.exists_eq_add_of_le' hs
  rfl

/-- Labels tell severities apart when the labels of unknown ones do. -/
theorem severityLabel_injective {unknown : Nat → String}
    (hhead : ∀ s, (unknown s).toList.head? = some 'u')
    (hunknown : ∀ s t, unknown s = unknown t → s = t) {s t : Nat}
    (h : severityLabel unknown s = severityLabel unknown t) : s = t := by
  have hlabel : ∀ s, (severityLabel unknown s).toList.head? = some (labelHead s) := by
    intro s
    by_cases hs : 4 ≤ s
    · rw [severityLabel_of_four_le hs, hhead, labelHead_of_four_le hs]
    · have hlt : s < 4 := by omega
      interval_cases s <;> simp [severityLabel, labelHead]
  have hheads : labelHead s = labelHead t := by
    rw [← Option.some.injEq, ← hlabel, ← hlabel, h]
  by_cases hs : 4 ≤ s
  · by_cases ht : 4 ≤ t
    · rw [severityLabel_of_four_le hs, severityLabel_of_four_le ht] at h
      exact hunknown s t h
    · have hlt : t < 4 := by omega
      rw [labelHead_of_four_le hs] at hheads
      interval_cases t <;> cases hheads
  · have hlt : s < 4 := by omega
    by_cases ht : 4 ≤ t
    · rw [labelHead_of_four_le ht] at hheads
      interval_cases s <;> cases hheads
    · have hlt' : t < 4 := by omega
      interval_cases s <;> interval_cases t <;> first | rfl | cases hheads

/-- Numbers are written differently. -/
theorem toString_injective {s t : Nat} (h : toString s = toString t) : s = t := by
  have hdigits : Nat.toDigits 10 s = Nat.toDigits 10 t := by
    rw [← Nat.toList_repr, ← Nat.toList_repr]
    exact congrArg String.toList h
  rw [← Nat.ofDigitChars_ten_toDigits (n := s), hdigits, Nat.ofDigitChars_ten_toDigits]

/-- So severities have different names in the exporter. -/
theorem severityName_injective {s t : Nat} (h : severityName s = severityName t) : s = t := by
  apply severityLabel_injective _ _ h
  · intro s
    simp
  · intro s t h
    exact toString_injective ((String.append_right_inj _).mp h)

/-- And in the reader. -/
theorem severity_injective {s t : Nat} (h : severity s = severity t) : s = t := by
  apply severityLabel_injective _ _ h
  · intro s
    simp
  · intro s t h
    exact toString_injective ((String.append_right_inj _).mp ((String.append_left_inj _).mp h))

/-! ## Records -/

/-- CPER records, as both readers recognise them. -/
def cper : Format UInt8 where
  mark region := decide (region.take 4 = cperMark)
  recordLength region := uint32At region 20

/-- The severity of the record a region begins with. -/
def severityRaw (region : Bytes) : Nat := uint32At region 24

/-- A word is read at its place in the whole. -/
theorem uint32At_drop (data : Bytes) (offset n : Nat) :
    uint32At (data.drop offset) n = uint32At data (offset + n) := by
  rw [uint32At, uint32At, List.drop_drop]

/-- So many bytes hold so much. -/
theorem littleEndian_lt (bytes : Bytes) : littleEndian bytes < 256 ^ bytes.length := by
  induction bytes with
  | nil => simp [littleEndian]
  | cons b rest ih =>
      have hb : b.toNat < 256 := b.toNat_lt
      rw [littleEndian, List.length_cons, Nat.pow_succ]
      omega

/-- And bytes of one length are told by their number. -/
theorem littleEndian_injective {as bs : Bytes} (hlength : as.length = bs.length)
    (h : littleEndian as = littleEndian bs) : as = bs := by
  induction as generalizing bs with
  | nil => exact (List.length_eq_zero_iff.mp hlength.symm).symm
  | cons a as ih =>
      cases bs with
      | nil => simp at hlength
      | cons b bs =>
          have ha : a.toNat < 256 := a.toNat_lt
          have hb : b.toNat < 256 := b.toNat_lt
          simp only [littleEndian] at h
          have hhead : a = b := UInt8.toNat_inj.mp (by omega)
          have htail : littleEndian as = littleEndian bs := by omega
          rw [hhead, ih (by simpa using hlength) htail]

/-- The signature is the mark. -/
theorem uint32At_eq_signature_iff {region : Bytes} {offset : Nat}
    (hfits : offset + 4 ≤ region.length) :
    uint32At region offset = cperSignature ↔ (region.drop offset).take 4 = cperMark := by
  have hmark : littleEndian cperMark = cperSignature := by decide
  rw [← hmark]
  constructor
  · intro h
    refine littleEndian_injective ?_ h
    have hlength : ((region.drop offset).take 4).length = 4 := by
      rw [List.length_take, List.length_drop]
      omega
    rw [hlength]
    rfl
  · intro h
    rw [uint32At, h]

/-- A record begins where there is room for a header with the mark. -/
theorem begins_iff {header : Nat} {region : Bytes} {offset : Nat} (hheader : 0 < header) :
    cper.Begins header (region.drop offset) ↔
      offset + header ≤ region.length ∧ (region.drop offset).take 4 = cperMark := by
  rw [Format.Begins, List.length_drop, cper, decide_eq_true_eq]
  constructor
  · intro ⟨hfits, hmark⟩
    exact ⟨by omega, hmark⟩
  · intro ⟨hfits, hmark⟩
    exact ⟨by omega, hmark⟩

/-- The Go loop counts the records of the chain under its own header size. -/
theorem countRecords_eq (region : Bytes) (offset : Nat) (counts : List (String × Nat)) :
    countRecords region offset counts =
      (cper.chain cperMinSize cperMinSize_pos (region.drop offset)).foldl
        (fun counts r => increment counts (severityName (severityRaw r))) counts := by
  fun_induction countRecords region offset counts with
  | case1 offset counts hfits hsig =>
      have hstop : ¬ cper.Begins cperMinSize (region.drop offset) := by
        intro hbegins
        rw [begins_iff (by decide)] at hbegins
        exact hsig ((uint32At_eq_signature_iff (by simp only [cperMinSize] at hfits; omega)).mpr
          hbegins.2)
      rw [chain_of_not_begins hstop, List.foldl_nil]
  | case2 offset counts hfits hsig recordLength severityRaw counts' hshort =>
      have hbegins : cper.Begins cperMinSize (region.drop offset) := by
        rw [begins_iff (by decide)]
        refine ⟨hfits, (uint32At_eq_signature_iff ?_).mp (not_not.mp hsig)⟩
        simp only [cperMinSize] at hfits
        omega
      have hlength : cper.recordLength (region.drop offset) = recordLength := uint32At_drop _ _ _
      rw [chain_last hbegins (by rw [hlength]; exact hshort), List.foldl_cons, List.foldl_nil,
        Bert.severityRaw, uint32At_drop]
  | case3 offset counts hfits hsig recordLength severityRaw counts' hlong ih =>
      have hbegins : cper.Begins cperMinSize (region.drop offset) := by
        rw [begins_iff (by decide)]
        refine ⟨hfits, (uint32At_eq_signature_iff ?_).mp (not_not.mp hsig)⟩
        simp only [cperMinSize] at hfits
        omega
      have hlength : cper.recordLength (region.drop offset) = recordLength := uint32At_drop _ _ _
      rw [chain_next hbegins (by rw [hlength]; exact hlong), List.foldl_cons, hlength,
        List.drop_drop, Bert.severityRaw, uint32At_drop]
      exact ih
  | case4 offset counts hfits =>
      have hstop : ¬ cper.Begins cperMinSize (region.drop offset) := by
        intro hbegins
        exact hfits ((begins_iff (by decide)).mp hbegins).1
      rw [chain_of_not_begins hstop, List.foldl_nil]

/-- The same of half a word. -/
theorem uint16At_drop (data : Bytes) (offset n : Nat) :
    uint16At (data.drop offset) n = uint16At data (offset + n) := by
  rw [uint16At, uint16At, List.drop_drop]

/-- A slice is what is left after dropping and taking. -/
theorem slice_eq (data : Bytes) (start size : Nat) :
    slice data start (start + size) = (data.drop start).take size := by
  rw [slice, List.drop_take, Nat.add_sub_cancel_left]

/-- A slice of the rest is one of the whole. -/
theorem slice_drop (data : Bytes) (offset start size : Nat) :
    slice (data.drop offset) start (start + size) =
      slice data (offset + start) (offset + start + size) := by
  rw [slice_eq, slice_eq, List.drop_drop]

/-- Sections are read alike off what is left of a region. -/
theorem cperSections_drop (region : Bytes) (offset count descOffset : Nat) :
    cperSections (region.drop offset) count descOffset =
      cperSections region count (offset + descOffset) := by
  induction count generalizing descOffset with
  | zero => rfl
  | succ count ih =>
      have hfits : (region.drop offset).length < descOffset + CPER_SECTION_DESC_SIZE ↔
          region.length < offset + descOffset + CPER_SECTION_DESC_SIZE := by
        have hsize : 0 < CPER_SECTION_DESC_SIZE := by decide
        rw [List.length_drop]
        omega
      have hguid := slice_drop region offset (descOffset + 4) 16
      rw [← Nat.add_assoc] at hguid
      simp only [cperSections, hfits, ih, uint32At_drop, uint16At_drop, hguid, Nat.add_assoc]

/-- So a record is read at its place in the whole. -/
theorem cperRecord_drop (region : Bytes) (offset : Nat) :
    cperRecord (region.drop offset) 0 = cperRecord region offset := by
  simp only [cperRecord, uint32At_drop, uint16At_drop, cperSections_drop, Nat.zero_add]

/-- The Python loop lists them under its own. -/
theorem cperRecordsFrom_eq (region : Bytes) (offset : Nat) :
    cperRecordsFrom region offset =
      (cper.chain CPER_HEADER_SIZE cperHeaderSize_pos (region.drop offset)).map
        fun r => cperRecord r 0 := by
  fun_induction cperRecordsFrom region offset with
  | case1 offset hfits hmark =>
      have hstop : ¬ cper.Begins CPER_HEADER_SIZE (region.drop offset) := by
        intro hbegins
        rw [begins_iff (by decide), ← slice_eq] at hbegins
        exact hmark hbegins.2
      rw [chain_of_not_begins hstop, List.map_nil]
  | case2 offset hfits hmark ih =>
      have hbegins : cper.Begins CPER_HEADER_SIZE (region.drop offset) := by
        rw [begins_iff (by decide), ← slice_eq]
        exact ⟨hfits, not_not.mp hmark⟩
      have hlength : cper.recordLength (region.drop offset) = uint32At region (offset + 20) :=
        uint32At_drop _ _ _
      by_cases hshort : uint32At region (offset + 20) < CPER_HEADER_SIZE
      · rw [chain_last hbegins (by rw [hlength]; exact hshort), dif_pos hshort, List.map_cons,
          List.map_nil, cperRecord_drop]
      · rw [chain_next hbegins (by rw [hlength]; exact hshort), dif_neg hshort, List.map_cons,
          ih hshort, hlength, List.drop_drop, cperRecord_drop]
  | case3 offset hfits =>
      have hstop : ¬ cper.Begins CPER_HEADER_SIZE (region.drop offset) := by
        intro hbegins
        exact hfits ((begins_iff (by decide)).mp hbegins).1
      rw [chain_of_not_begins hstop, List.map_nil]

/-- The reader reads the chain of its records. -/
theorem parseCperRecords_eq (region : Bytes) :
    parseCperRecords region =
      (cper.chain CPER_HEADER_SIZE cperHeaderSize_pos region).map fun r => cperRecord r 0 := by
  rw [parseCperRecords, cperRecordsFrom_eq, List.drop_zero]

/-! ## Counts -/

/-- One name is counted up and no other. -/
theorem lookup_increment (counts : List (String × Nat)) (name k : String) :
    ((increment counts name).lookup k).getD 0 =
      (counts.lookup k).getD 0 + if name = k then 1 else 0 := by
  by_cases hk : k = name
  · subst hk
    simp [increment]
  · rw [increment, lookup_setItem_ne hk, if_neg (Ne.symm hk), Nat.add_zero]

/-- A name is counted as often as it comes. -/
theorem lookup_foldl_increment {γ : Type*} (name : γ → String) (k : String) (rs : List γ)
    (counts : List (String × Nat)) :
    ((rs.foldl (fun counts r => increment counts (name r)) counts).lookup k).getD 0 =
      (counts.lookup k).getD 0 + (rs.map name).count k := by
  induction rs generalizing counts with
  | nil => simp
  | cons r rs ih =>
      rw [List.foldl_cons, ih, lookup_increment, List.map_cons, List.count_cons, beq_eq_decide]
      simp only [decide_eq_true_eq]
      omega

/-- Labels are counted as severities are. -/
theorem count_map_label {label : Nat → String} (hlabel : ∀ s t, label s = label t → s = t)
    (severities : List Nat) (s : Nat) :
    (severities.map label).count (label s) = severities.count s :=
  List.count_map_of_injective severities label (fun s t h => hlabel s t h) s

/-- The severities of the records of a region, under a header of the given size. -/
def severities (header : Nat) (hheader : 0 < header) (region : Bytes) : List Nat :=
  (cper.chain header hheader region).map severityRaw

/-- A severity is a word of 32 bits. -/
theorem lt_of_mem_severities {header : Nat} {hheader : 0 < header} {region : Bytes} {s : Nat}
    (hs : s ∈ severities header hheader region) : s < 2 ^ 32 := by
  obtain ⟨r, _, rfl⟩ := List.mem_map.mp hs
  have hlt := littleEndian_lt ((r.drop 24).take 4)
  have hlength : ((r.drop 24).take 4).length ≤ 4 := List.length_take_le ..
  calc severityRaw r < 256 ^ ((r.drop 24).take 4).length := hlt
    _ ≤ 256 ^ 4 := Nat.pow_le_pow_right (by decide) hlength
    _ = 2 ^ 32 := by decide

/-- The exporter counts the severities of its chain. -/
theorem lookup_countRecords (region : Bytes) (s : Nat) :
    ((countRecords region 0 []).lookup (severityName s)).getD 0 =
      (severities cperMinSize cperMinSize_pos region).count s := by
  have hlabels : (cper.chain cperMinSize cperMinSize_pos region).map
      (fun r => severityName (severityRaw r)) =
        (severities cperMinSize cperMinSize_pos region).map severityName := by
    simp [severities]
  rw [countRecords_eq, List.drop_zero,
    lookup_foldl_increment (fun r => severityName (severityRaw r)), hlabels,
    count_map_label (fun _ _ => severityName_injective)]
  exact Nat.zero_add _

/-- So does the reader with its own. -/
theorem count_parseCperRecords (region : Bytes) (s : Nat) :
    ((parseCperRecords region).map CperRecord.severity).count (severity s) =
      (severities CPER_HEADER_SIZE cperHeaderSize_pos region).count s := by
  have hlabels : ((cper.chain CPER_HEADER_SIZE cperHeaderSize_pos region).map
      fun r => cperRecord r 0).map CperRecord.severity =
        (severities CPER_HEADER_SIZE cperHeaderSize_pos region).map severity := by
    simp [severities, cperRecord, severityRaw]
  rw [parseCperRecords_eq, hlabels, count_map_label (fun _ _ => severity_injective)]

/-! ## Agreement -/

/-- Both readers reject the table, or they find equally many records of every severity. -/
def Agree (data : Bytes) : Prop :=
  match parseBERTRecordCounts data, bertRecords data with
  | .error _, .error _ => True
  | .ok counts, .ok records => ∀ s < 2 ^ 32,
      (counts.lookup (severityName s)).getD 0 =
        (records.map CperRecord.severity).count (severity s)
  | _, _ => False

/-- The region which the Python reader walks. -/
def listedRegion (data : Bytes) : Bytes :=
  regionData data (regionLength data) (regionOffset data)

/-- The table is too short; or its region begins within the table and is read alike: where both
readers take the same region, no record is read under the shorter header only, and where the Go
reader falls back to what follows the header of the table, it happens to find there the
severities which the Python reader finds in the region. -/
def Consistent (data : Bytes) : Prop :=
  data.length < acpiTableHeaderSize + bertBodySize ∨
    regionOffset data ≤ data.length ∧
      if regionOffset data = 0 ∨ Sliced data then
        cper.Clear CPER_HEADER_SIZE cperMinSize cperMinSize_pos (countedRegion data)
      else
        (severities cperMinSize cperMinSize_pos (countedRegion data)).Perm
          (severities CPER_HEADER_SIZE cperHeaderSize_pos (listedRegion data))

/-- Both look at the same region unless the offset leads out of the table. -/
theorem countedRegion_eq {data : Bytes} (h : regionOffset data = 0 ∨ Sliced data) :
    countedRegion data = listedRegion data := by
  rcases h with hzero | hsliced
  · have hsliced : ¬ Sliced data := fun h => by
      have hpos := h.1
      omega
    rw [countedRegion, if_neg hsliced, listedRegion, regionData, if_neg (by omega)]
    rfl
  · rw [countedRegion, if_pos hsliced, listedRegion, regionData, if_pos hsliced.1]

/-- Equal counts of all severities are equal lists up to order. -/
theorem perm_severities_iff (as bs : List Nat) (has : ∀ s ∈ as, s < 2 ^ 32)
    (hbs : ∀ s ∈ bs, s < 2 ^ 32) : (∀ s < 2 ^ 32, as.count s = bs.count s) ↔ as.Perm bs := by
  constructor
  · intro h
    rw [List.perm_iff_count]
    intro s
    by_cases hs : s < 2 ^ 32
    · exact h s hs
    · rw [List.count_eq_zero.mpr fun hmem => hs (has s hmem),
        List.count_eq_zero.mpr fun hmem => hs (hbs s hmem)]
  · intro h s _
    exact h.count_eq s

/-- The reader of a long enough table. -/
theorem bertRecords_eq {data : Bytes}
    (hlong : ¬ data.length < acpiTableHeaderSize + bertBodySize) :
    bertRecords data = .ok (parseCperRecords (listedRegion data)) := by
  rw [bertRecords, parseBertTable, bertHeader_eq, if_neg hlong, acpiTableHeaderSize_eq]
  rfl

/-- The exporter with one. -/
theorem parseBERTRecordCounts_eq {data : Bytes}
    (hlong : ¬ data.length < acpiTableHeaderSize + bertBodySize)
    (hoffset : ¬ data.length < regionOffset data) :
    parseBERTRecordCounts data = .ok (countRecords (countedRegion data) 0 []) := by
  rw [parseBERTRecordCounts, if_neg hlong, if_neg hoffset]

/-- What agreement is about when neither reader rejects the table. -/
theorem agree_iff_perm {data : Bytes} (hlong : ¬ data.length < acpiTableHeaderSize + bertBodySize)
    (hoffset : ¬ data.length < regionOffset data) :
    Agree data ↔ (severities cperMinSize cperMinSize_pos (countedRegion data)).Perm
      (severities CPER_HEADER_SIZE cperHeaderSize_pos (listedRegion data)) := by
  rw [← perm_severities_iff _ _ (fun _ => lt_of_mem_severities) (fun _ => lt_of_mem_severities)]
  simp only [Agree, parseBERTRecordCounts_eq hlong hoffset, bertRecords_eq hlong,
    lookup_countRecords, count_parseCperRecords]

/-- **The two readers** of a table agree exactly when it is consistent. -/
theorem tables_agree_iff (data : Bytes) : Agree data ↔ Consistent data := by
  by_cases hshort : data.length < acpiTableHeaderSize + bertBodySize
  · refine iff_of_true ?_ (Or.inl hshort)
    simp only [Agree, parseBERTRecordCounts, bertRecords, parseBertTable, bertHeader_eq, hshort,
      if_true, Except.map]
  · by_cases hoffset : data.length < regionOffset data
    · refine iff_of_false ?_ ?_
      · simp only [Agree, bertRecords_eq hshort, parseBERTRecordCounts, hshort, hoffset, if_true,
          if_false, not_false_eq_true]
      · rintro (h | ⟨h, _⟩)
        · exact hshort h
        · omega
    · rw [agree_iff_perm hshort hoffset, Consistent, or_iff_right hshort,
        and_iff_right (by omega)]
      split
      · rename_i hsame
        rw [countedRegion_eq hsame]
        exact perm_map_chain_iff severityRaw cperHeaderSize_pos cperMinSize_pos
          cperHeaderSize_le _
      · exact Iff.rfl

/-- A table with one fatal record whose header is all there is, and 100 bytes long. -/
def shortHeader : Bytes :=
  List.replicate 48 0 ++ (cperMark ++ List.replicate 20 0 ++ [1, 0, 0, 0] ++ List.replicate 72 0)

/-- Only the Python reader finds the record. -/
theorem shortHeader_disagrees : ¬ Agree shortHeader := by
  have hcounted : severities cperMinSize cperMinSize_pos (countedRegion shortHeader) = [] := by
    rw [severities, chain_of_not_begins (by decide +kernel), List.map_nil]
  have hlisted : severities CPER_HEADER_SIZE cperHeaderSize_pos (listedRegion shortHeader)
      = [1] := by
    rw [severities, chain_last (by decide +kernel) (by decide +kernel)]
    decide +kernel
  rw [agree_iff_perm (by decide +kernel) (by decide +kernel), hcounted, hlisted]
  exact fun h => absurd h.length_eq (by decide)

end FaultOracle.Bert
