import FaultOracle.CheckedLoops
import FaultOracle.EbpfEdac
import Mathlib.Data.List.GetD
import Mathlib.Data.List.TakeWhile

/-!
# SMBIOS Type 17 structures

`parseSMBIOSType17` of `exporter/collectors/dimm.go` decodes the raw bytes of a memory
device.  It checks that they reach to the end of the fields of SMBIOS 2.1, and takes the
length of the formatted area from the second byte; that length guards the later fields and
is where the strings begin.

The decoder is modelled with every index and slice expression it evaluates
(`GoSlice.index`, `GoSlice.slice`), which may panic.  Where nothing goes wrong it returns
`decoded`, a plain function of the bytes (`parse_eq_decoded`).  `stays_inside_iff` says where
that is: the formatted area must not be longer than the data, and its length must not cut
the field `Speed` in two.
-/

namespace FaultOracle.Dimm

open StructLayout
open CheckedLoops (bind_eq_ok)
open Ebpf (GoSlice GoPanic)

/-- A text, as the list of its characters. -/
abbrev Text := List Char

/-- A Go string, as the list of its bytes. -/
abbrev Bytes := List UInt8

/-- `smbiosType17MinLen`. -/
def smbiosType17MinLen : Nat := 0x15

/-- `DIMMInfo`, whose strings from the firmware are of the type `S`. -/
structure DIMMInfo (S : Type) where
  handle : UInt16
  locator : S
  bankLocator : S
  sizeMB : UInt64
  type : Text
  speedMHz : UInt32
  manufacturer : S
  serialNumber : S
  partNumber : S
  edacController : Text
  edacCsrow : Int
  edacChannel : Int
deriving DecidableEq, Repr

/-- The errors of the decoder. -/
inductive ParseError
  | tooShort (length : Nat)
  | notType17 (type : UInt8)
deriving DecidableEq, Repr

/-! ## Slices -/

/-- `s[i]`. -/
def index (s : GoSlice) (i : Nat) : Except GoPanic UInt8 :=
  match s.bytes[i]? with
  | some b => .ok b
  | none => .error .indexOutOfRange

/-- `s[low:]`, which ends where `s` does. -/
def sliceFrom (s : GoSlice) (low : Nat) : Except GoPanic GoSlice :=
  if low ≤ s.bytes.length then s.slice low s.bytes.length else .error .sliceBounds

/-- `binary.LittleEndian.Uint16`. -/
def littleEndianUint16 (s : GoSlice) : Except GoPanic UInt16 :=
  if s.bytes.length < 2 then .error .indexOutOfRange
  else .ok (UInt16.ofNat (leNat (s.bytes.take 2)))

/-! ## Strings -/

/-- The inner loop of `parseSMBIOSStrings`. -/
def stringEnd (data : GoSlice) (last : Nat) : Except GoPanic Nat :=
  if last < data.bytes.length then
    match index data last with
    | .error panic => .error panic
    | .ok b => if b ≠ 0 then stringEnd data (last + 1) else .ok last
  else .ok last
termination_by data.bytes.length - last

/-- The loop of `parseSMBIOSStrings`, which makes at most `turns` turns. -/
def stringsLoop : Nat → GoSlice → List Bytes → Except GoPanic (List Bytes)
  | 0, _, result => .ok result
  | turns + 1, data, result =>
      if 0 < data.bytes.length then do
        if (← index data 0) = 0 then
          return result
        let last ← stringEnd data 0
        let str ← data.slice 0 last
        let result := result ++ [str.bytes]
        if last + 1 ≥ data.bytes.length then
          return result
        stringsLoop turns (← sliceFrom data (last + 1)) result
      else .ok result

/-- Every turn takes a byte at least. -/
def parseSMBIOSStrings (data : GoSlice) : Except GoPanic (List Bytes) :=
  stringsLoop (data.bytes.length + 1) data []

/-- The white space of `unicode.IsSpace`, encoded. -/
def whiteSpaces : List Bytes :=
  [[0x09], [0x0A], [0x0B], [0x0C], [0x0D], [0x20], [0xC2, 0x85], [0xC2, 0xA0],
    [0xE1, 0x9A, 0x80], [0xE2, 0x80, 0xA8], [0xE2, 0x80, 0xA9], [0xE2, 0x80, 0xAF],
    [0xE2, 0x81, 0x9F], [0xE3, 0x80, 0x80]] ++
  (List.range 11).map fun i => [0xE2, 0x80, 0x80 + UInt8.ofNat i]

/-- The text without one of the `spaces` at its front. -/
def dropSpace (spaces : List Bytes) (s : Bytes) : Bytes :=
  match spaces.find? (·.isPrefixOf s) with
  | some space => s.drop space.length
  | none => s

/-- `strings.TrimSpace`. -/
def trimSpaceBytes (s : Bytes) : Bytes :=
  let front := (dropSpace whiteSpaces)^[s.length] s
  ((dropSpace (whiteSpaces.map List.reverse))^[front.length] front.reverse).reverse

/-- `getString`: the string with an index counted from 1. -/
def getString (strs : List Bytes) (idx : Nat) : Bytes :=
  if idx < 1 ∨ idx > strs.length then [] else strs.getD (idx - 1) []

/-- `smbiosStringTable.trimmed`. -/
def trimmed (strs : List Bytes) (idx : Nat) : Bytes :=
  if idx < 1 ∨ idx > strs.length then [] else trimSpaceBytes (strs.getD (idx - 1) [])

/-! ## Memory types -/

/-- The names of SMBIOS 3.x, table 77. -/
def memTypes : List (UInt8 × String) :=
  [(0x01, "Other"), (0x02, "Unknown"), (0x03, "DRAM"), (0x04, "EDRAM"),
    (0x05, "VRAM"), (0x06, "SRAM"), (0x07, "RAM"), (0x08, "ROM"),
    (0x09, "FLASH"), (0x0A, "EEPROM"), (0x0B, "FEPROM"), (0x0C, "EPROM"),
    (0x0D, "CDRAM"), (0x0E, "3DRAM"), (0x0F, "SDRAM"), (0x10, "SGRAM"),
    (0x11, "RDRAM"), (0x12, "DDR"), (0x13, "DDR2"), (0x14, "DDR2 FB-DIMM"),
    (0x18, "DDR3"), (0x1A, "DDR4"), (0x1B, "LPDDR"), (0x1C, "LPDDR2"),
    (0x1D, "LPDDR3"), (0x1E, "LPDDR4"), (0x1F, "Logical non-volatile device"),
    (0x20, "HBM"), (0x21, "HBM2"), (0x22, "DDR5"), (0x23, "LPDDR5"),
    (0x24, "HBM3")]

/-- A digit of `%X`. -/
def hexDigit (n : Nat) : Char := "0123456789ABCDEF".toList.getD n '0'

def decodeSMBIOSMemType (b : UInt8) : Text :=
  match memTypes.lookup b with
  | some s => s.toList
  | none =>
      "Unknown(0x".toList ++ [hexDigit (b.toNat / 16), hexDigit (b.toNat % 16)] ++ [')']

/-! ## The decoder -/

/-- The installed size; only the extended size is read from the data. -/
def decodeSize (data : GoSlice) (fmtLen : Nat) (rawSize : UInt16) : Except GoPanic UInt64 :=
  if rawSize = 0xFFFF then
    if fmtLen ≥ 0x20 then do
      let extSizeMB ← Ebpf.littleEndianUint32 (← data.slice 0x1C (0x1C + 4))
      return (extSizeMB &&& ~~~((1 : UInt32) <<< 31)).toUInt64
    else .ok 0
  else if rawSize &&& 0x8000 ≠ 0 then .ok ((rawSize &&& 0x7FFF).toUInt64 / 1024)
  else .ok rawSize.toUInt64

/-- The speed, a field since SMBIOS 2.3. -/
def decodeSpeed (data : GoSlice) (fmtLen : Nat) : Except GoPanic UInt32 :=
  if fmtLen > 0x15 then do
    let speed ← littleEndianUint16 (← data.slice 0x15 (0x15 + 2))
    return speed.toUInt32
  else .ok 0

/-- The indices of the manufacturer, the serial number and the part number, fields since
SMBIOS 2.3. -/
def decodeIndices (data : GoSlice) (fmtLen : Nat) : Except GoPanic (Nat × Nat × Nat) :=
  if fmtLen > 0x1A then do
    let idxMfr ← index data 0x17
    let idxSerial ← index data 0x18
    let idxPart ← index data 0x1A
    return (idxMfr.toNat, idxSerial.toNat, idxPart.toNat)
  else .ok (0, 0, 0)

def parseSMBIOSType17 (data : GoSlice) :
    Except GoPanic (Except ParseError (DIMMInfo Bytes)) := do
  if data.bytes.length < smbiosType17MinLen then
    return .error (.tooShort data.bytes.length)
  let type ← index data 0
  if type ≠ 0x11 then
    return .error (.notType17 type)
  let fmtLen := (← index data 1).toNat
  let handle ← littleEndianUint16 (← data.slice 2 4)
  let rawSize ← littleEndianUint16 (← data.slice 0x0C (0x0C + 2))
  let rawSpeed ← decodeSpeed data fmtLen
  let idxLocator := (← index data 0x10).toNat
  let idxBankLoc := (← index data 0x11).toNat
  let (idxMfr, idxSerial, idxPart) ← decodeIndices data fmtLen
  let strs ← parseSMBIOSStrings (← sliceFrom data fmtLen)
  let sizeMB ← decodeSize data fmtLen rawSize
  let memType := decodeSMBIOSMemType (← index data 0x12)
  return .ok
    { handle, locator := getString strs idxLocator, bankLocator := getString strs idxBankLoc,
      sizeMB, type := memType, speedMHz := rawSpeed, manufacturer := getString strs idxMfr,
      serialNumber := getString strs idxSerial, partNumber := trimmed strs idxPart,
      edacController := [], edacCsrow := 0, edacChannel := 0 }

/-! ## What lies inside -/

variable {data : GoSlice}

/-- An index within the data does not panic. -/
theorem index_eq (data : GoSlice) {i : Nat} (h : i < data.bytes.length) :
    index data i = .ok (data.bytes.getD i 0) := by
  rw [index, List.getElem?_eq_getElem h]
  simp [List.getElem?_eq_getElem h]

/-- A slice up to the length of the data holds no more than the data does. -/
theorem slice_eq {low high : Nat} (h : low ≤ high) (hhigh : high ≤ data.bytes.length) :
    ∃ spare, data.slice low high = .ok ⟨(data.bytes.drop low).take (high - low), spare⟩ := by
  have hbounds : low ≤ high ∧ high ≤ data.bytes.length + data.spare.length := by omega
  refine ⟨(data.bytes ++ data.spare).drop high, ?_⟩
  rw [GoSlice.slice, if_pos hbounds, List.drop_append_of_le_length (by omega),
    List.take_append_of_le_length (by rw [List.length_drop]; omega)]

/-- A slice from within the data does not panic. -/
theorem sliceFrom_eq (data : GoSlice) {low : Nat} (h : low ≤ data.bytes.length) :
    ∃ spare, sliceFrom data low = .ok ⟨data.bytes.drop low, spare⟩ := by
  obtain ⟨spare, hslice⟩ := slice_eq h le_rfl
  refine ⟨spare, ?_⟩
  rw [sliceFrom, if_pos h, hslice, List.take_of_length_le (by rw [List.length_drop])]

/-- The field of two bytes at an offset. -/
def word16 (bytes : Bytes) (offset : Nat) : UInt16 := UInt16.ofNat (leNat (peek bytes ⟨offset, 2⟩))

/-- The field of four bytes at an offset. -/
def word32 (bytes : Bytes) (offset : Nat) : UInt32 := UInt32.ofNat (leNat (peek bytes ⟨offset, 4⟩))

/-- Two bytes within the data are read as a word. -/
theorem uint16_of_slice (data : GoSlice) (low : Nat) (h : low + 2 ≤ data.bytes.length) :
    (data.slice low (low + 2) >>= littleEndianUint16) = .ok (word16 data.bytes low) := by
  obtain ⟨spare, hslice⟩ := slice_eq (Nat.le_add_right low 2) h
  have hlength : ((data.bytes.drop low).take (low + 2 - low)).length = 2 := by
    rw [List.length_take, List.length_drop]
    omega
  rw [hslice]
  show littleEndianUint16 _ = _
  rw [littleEndianUint16, if_neg (by rw [hlength]; omega), List.take_of_length_le (le_of_eq hlength),
    word16, peek, Nat.add_sub_cancel_left]

/-! ## The string table -/

/-- The strings between zero bytes, up to the first empty one. -/
def stringTable (bytes : Bytes) : List Bytes := (bytes.splitOn 0).takeWhile (· ≠ [])

/-- A string ends at the next zero byte. -/
theorem stringEnd_eq (data : GoSlice) (last : Nat) :
    stringEnd data last =
      .ok (last + ((data.bytes.drop last).takeWhile (· ≠ 0)).length) := by
  fun_induction stringEnd data last with
  | case1 last hlast panic hpanic =>
      rw [index_eq data hlast] at hpanic
      cases hpanic
  | case2 last hlast b hb hne ih =>
      have hhere : data.bytes[last] = b := by
        rw [index_eq data hlast, List.getD_eq_getElem _ _ hlast] at hb
        exact Except.ok.inj hb
      rw [ih, List.drop_eq_getElem_cons hlast, hhere, List.takeWhile_cons,
        if_pos (by simpa using hne), List.length_cons]
      congr 1
      omega
  | case3 last hlast b hb hzero =>
      have hhere : data.bytes[last] = b := by
        rw [index_eq data hlast, List.getD_eq_getElem _ _ hlast] at hb
        exact Except.ok.inj hb
      rw [List.drop_eq_getElem_cons hlast, hhere, List.takeWhile_cons,
        if_neg (by simpa using hzero)]
      rfl
  | case4 last hlast =>
      rw [List.drop_eq_nil_of_le (Nat.not_lt.mp hlast)]
      rfl

theorem stringTable_zero (rest : Bytes) : stringTable (0 :: rest) = [] := by
  rw [stringTable, List.splitOn_eq_splitOnP, ← List.nil_append (0 :: rest),
    List.splitOnP_append_cons_of_forall_mem (by simp) 0 (by rfl)]
  rfl

/-- A string that is terminated. -/
theorem stringTable_terminated {w : Bytes} (hne : w ≠ []) (hw : ∀ b ∈ w, b ≠ 0) (rest : Bytes) :
    stringTable (w ++ 0 :: rest) = w :: stringTable rest := by
  have hw' : ∀ b ∈ w, (b == 0) = false := fun b hb => beq_eq_false_iff_ne.mpr (hw b hb)
  rw [stringTable, List.splitOn_eq_splitOnP,
    List.splitOnP_append_cons_of_forall_mem hw' 0 (by rfl), List.takeWhile_cons,
    if_pos (by simpa using hne)]
  rfl

/-- A string that ends where the data does. -/
theorem stringTable_last {w : Bytes} (hne : w ≠ []) (hw : ∀ b ∈ w, b ≠ 0) :
    stringTable w = [w] := by
  have hw' : ∀ b ∈ w, (b == 0) = false := fun b hb => beq_eq_false_iff_ne.mpr (hw b hb)
  rw [stringTable, List.splitOn_eq_splitOnP, List.splitOnP_eq_singleton hw', List.takeWhile_cons,
    if_pos (by simpa using hne)]
  rfl

/-- A byte string is its first string and what follows it. -/
theorem exists_string (bytes : Bytes) :
    ∃ w rest, bytes = w ++ rest ∧ w = bytes.takeWhile (· ≠ 0) ∧ (∀ b ∈ w, b ≠ 0) ∧
      (rest = [] ∨ ∃ tail, rest = 0 :: tail) := by
  refine ⟨bytes.takeWhile (· ≠ 0), bytes.dropWhile (· ≠ 0),
    List.takeWhile_append_dropWhile.symm, rfl, ?_, ?_⟩
  · intro b hb
    simpa using List.mem_takeWhile_imp hb
  · cases hrest : bytes.dropWhile (· ≠ 0) with
    | nil => exact Or.inl rfl
    | cons b tail =>
        have hhead := List.head?_dropWhile_not (fun b : UInt8 => decide (b ≠ 0)) bytes
        rw [hrest] at hhead
        obtain rfl : b = 0 := by simpa using hhead
        exact Or.inr ⟨tail, rfl⟩

/-- **The walk over the strings.**  It goes out of range on no data. -/
theorem stringsLoop_eq {turns : Nat} (hturns : data.bytes.length < turns) (result : List Bytes) :
    stringsLoop turns data result = .ok (result ++ stringTable data.bytes) := by
  induction turns generalizing data result with
  | zero => omega
  | succ turns ih =>
      obtain ⟨w, rest, hdata, hw, hdark, hrest⟩ := exists_string data.bytes
      have hend := stringEnd_eq data 0
      rw [List.drop_zero, ← hw, Nat.zero_add] at hend
      rw [stringsLoop]
      cases w with
      | nil =>
          rcases hrest with rfl | ⟨tail, rfl⟩
          · rw [hdata]
            exact congrArg Except.ok (List.append_nil result).symm
          · have hlength : 0 < data.bytes.length := by rw [hdata]; exact Nat.succ_pos _
            have hzero : index data 0 = .ok 0 := by
              rw [index_eq data hlength, hdata]
              rfl
            rw [if_pos hlength, hzero, hdata, List.nil_append, stringTable_zero, List.append_nil]
            rfl
      | cons b w =>
          have hlength : 0 < data.bytes.length := by rw [hdata]; exact Nat.succ_pos _
          have hfirst : index data 0 = .ok b := by
            rw [index_eq data hlength, hdata]
            rfl
          have hb : b ≠ 0 := hdark b List.mem_cons_self
          have hin : (b :: w).length ≤ data.bytes.length := by
            rw [hdata, List.length_append]
            exact Nat.le_add_right _ _
          obtain ⟨spare, hslice⟩ := slice_eq (Nat.zero_le _) hin
          have hstr : (data.bytes.drop 0).take ((b :: w).length - 0) = b :: w := by
            rw [List.drop_zero, Nat.sub_zero, hdata, List.take_left]
          rw [hstr] at hslice
          rw [if_pos hlength, hfirst, hend]
          show (if b = 0 then _ else _) = _
          rw [if_neg hb]
          show (data.slice 0 (b :: w).length >>= fun str => _) = _
          rw [hslice]
          show (if (b :: w).length + 1 ≥ data.bytes.length then _ else _) = _
          rcases hrest with rfl | ⟨tail, rfl⟩
          · have hdata : data.bytes = b :: w := by rw [hdata, List.append_nil]
            rw [if_pos (by rw [hdata]; exact Nat.le_succ _), hdata,
              stringTable_last (List.cons_ne_nil b w) hdark]
            rfl
          · have htotal : data.bytes.length = (b :: w).length + (tail.length + 1) := by
              rw [hdata, List.length_append]
              rfl
            have htable := stringTable_terminated (List.cons_ne_nil b w) hdark tail
            by_cases hover : (b :: w).length + 1 ≥ data.bytes.length
            · obtain rfl : tail = [] := List.length_eq_zero_iff.mp (by omega)
              rw [if_pos hover, hdata, htable]
              rfl
            · obtain ⟨spare', hfrom⟩ := sliceFrom_eq data
                (show (b :: w).length + 1 ≤ data.bytes.length by omega)
              have htail : data.bytes.drop ((b :: w).length + 1) = tail := by
                rw [hdata, List.drop_append, List.drop_eq_nil_of_le (Nat.le_succ _),
                  Nat.add_sub_cancel_left]
                rfl
              rw [htail] at hfrom
              have hshorter : (⟨tail, spare'⟩ : GoSlice).bytes.length < turns := by
                show tail.length < turns
                omega
              have hrest := ih hshorter (result ++ [b :: w])
              rw [if_neg hover, hfrom, hdata, htable]
              show stringsLoop turns ⟨tail, spare'⟩ (result ++ [b :: w]) = _
              rw [hrest, List.append_assoc]
              rfl

/-- The strings are read without a panic. -/
theorem parseSMBIOSStrings_eq (data : GoSlice) :
    parseSMBIOSStrings data = .ok (stringTable data.bytes) :=
  stringsLoop_eq (Nat.lt_succ_self _) []

/-! ## The decoder as a function of the bytes -/

/-- The length that the structure claims for its formatted area. -/
def fmtLen (bytes : Bytes) : Nat := (bytes.getD 1 0).toNat

def decodedSize (bytes : Bytes) : UInt64 :=
  if word16 bytes 0x0C = 0xFFFF then
    if fmtLen bytes ≥ 0x20 then (word32 bytes 0x1C &&& ~~~((1 : UInt32) <<< 31)).toUInt64 else 0
  else if word16 bytes 0x0C &&& 0x8000 ≠ 0 then (word16 bytes 0x0C &&& 0x7FFF).toUInt64 / 1024
  else (word16 bytes 0x0C).toUInt64

/-- The index of a string since SMBIOS 2.3. -/
def laterIndex (bytes : Bytes) (offset : Nat) : Nat :=
  if fmtLen bytes > 0x1A then (bytes.getD offset 0).toNat else 0

/-- The strings behind the formatted area. -/
def strings (bytes : Bytes) : List Bytes := stringTable (bytes.drop (fmtLen bytes))

/-- The record of a memory device, its fields read from the bytes. -/
def decoded (bytes : Bytes) : DIMMInfo Bytes :=
  { handle := word16 bytes 2
    locator := getString (strings bytes) (bytes.getD 0x10 0).toNat
    bankLocator := getString (strings bytes) (bytes.getD 0x11 0).toNat
    sizeMB := decodedSize bytes
    type := decodeSMBIOSMemType (bytes.getD 0x12 0)
    speedMHz := if fmtLen bytes > 0x15 then (word16 bytes 0x15).toUInt32 else 0
    manufacturer := getString (strings bytes) (laterIndex bytes 0x17)
    serialNumber := getString (strings bytes) (laterIndex bytes 0x18)
    partNumber := trimmed (strings bytes) (laterIndex bytes 0x1A)
    edacController := [], edacCsrow := 0, edacChannel := 0 }

theorem ok_bind {α β : Type} (a : α) (f : α → Except GoPanic β) :
    (Except.ok a >>= f) = f a := rfl

/-- Data below the minimal length are refused. -/
theorem parse_tooShort (data : GoSlice) (h : data.bytes.length < smbiosType17MinLen) :
    parseSMBIOSType17 data = .ok (.error (.tooShort data.bytes.length)) := by
  rw [parseSMBIOSType17, if_pos h]
  rfl

/-- Data of another type are refused. -/
theorem parse_notType17 (data : GoSlice) (h : smbiosType17MinLen ≤ data.bytes.length)
    (htype : data.bytes.getD 0 0 ≠ 0x11) :
    parseSMBIOSType17 data = .ok (.error (.notType17 (data.bytes.getD 0 0))) := by
  have hmin : smbiosType17MinLen = 21 := rfl
  rw [parseSMBIOSType17, if_neg (by omega)]
  simp only [index_eq data (i := 0) (by omega), ok_bind, if_pos htype]
  rfl

/-- The size is decoded without a panic. -/
theorem decodeSize_eq (hfmt : fmtLen data.bytes ≤ data.bytes.length) :
    decodeSize data (fmtLen data.bytes) (word16 data.bytes 0x0C) =
      .ok (decodedSize data.bytes) := by
  unfold decodeSize decodedSize
  split
  · split
    · rename_i hext
      have hword : (data.slice 0x1C (0x1C + 4) >>= Ebpf.littleEndianUint32) =
          .ok (word32 data.bytes 0x1C) := Ebpf.uint32_of_slice (by omega)
      rw [← bind_assoc, hword]
      rfl
    · rfl
  · split <;> rfl

/-- The speed is decoded without a panic. -/
theorem decodeSpeed_eq (hspeed : fmtLen data.bytes > 0x15 → 0x17 ≤ data.bytes.length) :
    decodeSpeed data (fmtLen data.bytes) =
      .ok (if fmtLen data.bytes > 0x15 then (word16 data.bytes 0x15).toUInt32 else 0) := by
  unfold decodeSpeed
  split
  · rename_i hlong
    rw [← bind_assoc, uint16_of_slice data 0x15 (hspeed hlong)]
    rfl
  · rfl

/-- The later string indices are decoded without a panic. -/
theorem decodeIndices_eq (hfmt : fmtLen data.bytes ≤ data.bytes.length) :
    decodeIndices data (fmtLen data.bytes) =
      .ok (laterIndex data.bytes 0x17, laterIndex data.bytes 0x18,
        laterIndex data.bytes 0x1A) := by
  unfold decodeIndices laterIndex
  split
  · rw [index_eq data (by omega), index_eq data (by omega), index_eq data (by omega)]
    rfl
  · rfl

/-- **Where nothing goes wrong** the decoder returns what the bytes say. -/
theorem parse_eq_decoded (data : GoSlice) (h : smbiosType17MinLen ≤ data.bytes.length)
    (htype : data.bytes.getD 0 0 = 0x11) (hfmt : fmtLen data.bytes ≤ data.bytes.length)
    (hspeed : ¬ (fmtLen data.bytes = 0x16 ∧ data.bytes.length = 0x16)) :
    parseSMBIOSType17 data = .ok (.ok (decoded data.bytes)) := by
  have hmin : 0x15 ≤ data.bytes.length := h
  obtain ⟨spare, hstrings⟩ := sliceFrom_eq data hfmt
  have hhandle := uint16_of_slice data 2 (by omega)
  have hsize := uint16_of_slice data 0x0C (by omega)
  have hlength : (data.bytes.getD 1 0).toNat = fmtLen data.bytes := rfl
  rw [parseSMBIOSType17, if_neg (Nat.not_lt.mpr h), index_eq data (i := 0) (by omega), ok_bind,
    if_neg (not_not.mpr htype)]
  simp only [index_eq data (i := 1) (by omega), ok_bind]
  rw [← bind_assoc, hhandle, ok_bind, ← bind_assoc, hsize, ok_bind, hlength,
    decodeSpeed_eq (by omega), ok_bind, index_eq data (i := 0x10) (by omega), ok_bind,
    index_eq data (i := 0x11) (by omega), ok_bind, decodeIndices_eq hfmt, ok_bind, hstrings, ok_bind,
    parseSMBIOSStrings_eq, ok_bind, decodeSize_eq hfmt, ok_bind,
    index_eq data (i := 0x12) (by omega), ok_bind]
  rfl

/-! ## Where the decoder stays inside -/

/-- Whatever lies behind the bytes, the decoder returns, and always the same: an error or
a record which no byte outside has entered. -/
def StaysInside (bytes : Bytes) : Prop :=
  ∃ result, ∀ spare, parseSMBIOSType17 ⟨bytes, spare⟩ = .ok result

/-- Too short, of another type, or with a formatted area that does not reach beyond the data
and does not end inside the field `Speed`. -/
def Bounded (bytes : Bytes) : Prop :=
  bytes.length < smbiosType17MinLen ∨ bytes.getD 0 0 ≠ 0x11 ∨
    (fmtLen bytes ≤ bytes.length ∧ ¬ (fmtLen bytes = 0x16 ∧ bytes.length = 0x16))

instance (bytes : Bytes) : Decidable (Bounded bytes) :=
  inferInstanceAs (Decidable (_ ∨ _ ∨ _))

/-- A decoder that returns has sliced the strings off and read the speed. -/
theorem bounds_of_parse {result : Except ParseError (DIMMInfo Bytes)}
    (hparse : parseSMBIOSType17 data = .ok result)
    (h : smbiosType17MinLen ≤ data.bytes.length) (htype : data.bytes.getD 0 0 = 0x11) :
    fmtLen data.bytes ≤ data.bytes.length ∧
      (fmtLen data.bytes > 0x15 → 0x17 ≤ data.bytes.length + data.spare.length) := by
  have hmin : 0x15 ≤ data.bytes.length := h
  rw [parseSMBIOSType17, if_neg (Nat.not_lt.mpr h), index_eq data (i := 0) (by omega), ok_bind,
    if_neg (not_not.mpr htype)] at hparse
  have hlength : (data.bytes.getD 1 0).toNat = fmtLen data.bytes := rfl
  simp only [index_eq data (i := 1) (by omega), ok_bind, hlength] at hparse
  obtain ⟨_, _, hparse⟩ := bind_eq_ok.mp hparse
  obtain ⟨_, _, hparse⟩ := bind_eq_ok.mp hparse
  obtain ⟨_, _, hparse⟩ := bind_eq_ok.mp hparse
  obtain ⟨_, _, hparse⟩ := bind_eq_ok.mp hparse
  obtain ⟨speed, hspeed, hparse⟩ := bind_eq_ok.mp hparse
  obtain ⟨_, _, hparse⟩ := bind_eq_ok.mp hparse
  obtain ⟨_, _, hparse⟩ := bind_eq_ok.mp hparse
  obtain ⟨_, _, hparse⟩ := bind_eq_ok.mp hparse
  obtain ⟨strings, hstrings, -⟩ := bind_eq_ok.mp hparse
  constructor
  · by_contra hbeyond
    rw [sliceFrom, if_neg hbeyond] at hstrings
    cases hstrings
  · intro hlong
    by_contra hcap
    have hbounds : ¬ (0x15 ≤ 0x15 + 2 ∧
        0x15 + 2 ≤ data.bytes.length + data.spare.length) := by omega
    rw [decodeSpeed, if_pos hlong, GoSlice.slice, if_neg hbounds] at hspeed
    cases hspeed

/-- A formatted area that claims to be longer than the data stops the exporter, whatever
the capacity of the slice. -/
theorem parse_panics (data : GoSlice) (h : smbiosType17MinLen ≤ data.bytes.length)
    (htype : data.bytes.getD 0 0 = 0x11) (hbeyond : data.bytes.length < fmtLen data.bytes) :
    ∃ panic, parseSMBIOSType17 data = .error panic := by
  cases hparse : parseSMBIOSType17 data with
  | error panic => exact ⟨panic, rfl⟩
  | ok result => exact absurd (bounds_of_parse hparse h htype).1 (Nat.not_le.mpr hbeyond)

/-- **Firmware tables.**  The decoder stays inside the data, if and only if they are bounded. -/
theorem stays_inside_iff (bytes : Bytes) : StaysInside bytes ↔ Bounded bytes := by
  constructor
  · intro ⟨result, hparse⟩
    by_contra hunbounded
    rw [Bounded, not_or, not_or, not_not, Nat.not_lt] at hunbounded
    obtain ⟨hlong, htype, hcut⟩ := hunbounded
    obtain ⟨hfmt, hspeed⟩ := bounds_of_parse (hparse []) hlong htype
    simp only [List.length_nil, Nat.add_zero] at hspeed hfmt
    exact hcut ⟨hfmt, by omega⟩
  · intro hbounded
    by_cases hlong : smbiosType17MinLen ≤ bytes.length
    · by_cases htype : bytes.getD 0 0 = 0x11
      · have hinside := (hbounded.resolve_left (Nat.not_lt.mpr hlong)).resolve_left
          (not_not.mpr htype)
        exact ⟨.ok (decoded bytes), fun spare =>
          parse_eq_decoded ⟨bytes, spare⟩ hlong htype hinside.1 hinside.2⟩
      · exact ⟨.error (.notType17 (bytes.getD 0 0)), fun spare =>
          parse_notType17 ⟨bytes, spare⟩ hlong htype⟩
    · exact ⟨.error (.tooShort bytes.length), fun spare =>
        parse_tooShort ⟨bytes, spare⟩ (Nat.not_le.mp hlong)⟩

/-- A structure of 21 bytes that claims to have 34. -/
def overstated : Bytes := 0x11 :: 0x22 :: List.replicate 19 0

/-- An overstated length byte leads the parser out of its data. -/
theorem overstated_leaves_data : ¬ StaysInside overstated := by
  intro ⟨_, hparse⟩
  obtain ⟨panic, hpanic⟩ := parse_panics ⟨overstated, []⟩ (by decide) (by decide)
    (by decide)
  rw [hparse []] at hpanic
  cases hpanic

end FaultOracle.Dimm
