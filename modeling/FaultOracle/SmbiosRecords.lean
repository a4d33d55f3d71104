import FaultOracle.SmbiosType17

/-!
# Memory device records

The records that the offset table of `exporter/collectors/dimm.go` lays out, and what
`parseSMBIOSType17` makes of their bytes.  A record of SMBIOS 2.1 ends behind its type
detail; the later versions add to it (`Tail`).  A size which the field `Size` cannot hold is
in the extended field, and `Size` is 0x7FFF.

Handle, speed and strings come back from every record (`carries_decoded`).  The size does,
except from the extended field: the decoder looks for 0xFFFF where the table has 0x7FFF, and
takes the escape for a size of 32767 MB (`reads_back_iff`).
-/

namespace FaultOracle.Dimm

open StructLayout
open Ebpf (GoSlice GoPanic)

/-! ## Records -/

/-- The fields since SMBIOS 2.3; the last four are indices of strings. -/
structure Identity where
  speed : UInt16
  manufacturer : UInt8
  serialNumber : UInt8
  assetTag : UInt8
  partNumber : UInt8
deriving Repr

/-- What the versions of SMBIOS have behind the type detail. -/
inductive Tail
  | v21
  | v23 (identity : Identity)
  | v26 (identity : Identity) (attributes : UInt8)
  | v27 (identity : Identity) (attributes : UInt8) (extendedSize : Nat)
      (configuredSpeed : UInt16) (more : Bytes)
deriving Repr

def Tail.identity : Tail → Identity
  | .v21 => ⟨0, 0, 0, 0, 0⟩
  | .v23 identity => identity
  | .v26 identity _ => identity
  | .v27 identity _ _ _ _ => identity

/-- The installed size, by the way it is given. -/
inductive InstalledSize
  | megabytes (n : Nat)
  | kilobytes (n : Nat)
  | extended (n : Nat)
deriving DecidableEq, Repr

/-- In MiB, rounded down. -/
def InstalledSize.mib : InstalledSize → Nat
  | .megabytes n => n
  | .kilobytes n => n / 1024
  | .extended n => n

/-- The field `Size`. -/
def InstalledSize.field : InstalledSize → Nat
  | .megabytes n => n
  | .kilobytes n => 0x8000 + n
  | .extended _ => 0x7FFF

/-- The size is given in a way that the record has room for: 0xFFFF stands for no size, and
the extended field for those that `Size` cannot hold. -/
def InstalledSize.FitsIn : InstalledSize → Tail → Prop
  | .megabytes n, _ => n < 0x7FFF
  | .kilobytes n, _ => n < 0x7FFF
  | .extended n, .v27 _ _ extendedSize _ _ => 0x7FFF ≤ n ∧ n < 2 ^ 31 ∧ extendedSize = n
  | .extended _, _ => False

def identityBytes (identity : Identity) : Bytes :=
  leBytes 2 identity.speed.toNat ++
    [identity.manufacturer, identity.serialNumber, identity.assetTag, identity.partNumber]

def Tail.bytes : Tail → Bytes
  | .v21 => []
  | .v23 identity => identityBytes identity
  | .v26 identity attributes => identityBytes identity ++ [attributes]
  | .v27 identity attributes extendedSize configuredSpeed more =>
      identityBytes identity ++ [attributes] ++ leBytes 4 extendedSize ++
        leBytes 2 configuredSpeed.toNat ++ more

/-- A well-formed record. -/
structure Type17Record where
  handle : UInt16
  arrayHandle : UInt16
  errorHandle : UInt16
  totalWidth : UInt16
  dataWidth : UInt16
  size : InstalledSize
  formFactor : UInt8
  deviceSet : UInt8
  locator : UInt8
  bankLocator : UInt8
  memoryType : UInt8
  typeDetail : UInt16
  tail : Tail
  strings : List Bytes
  size_fits : size.FitsIn tail
  length_fits : 0x15 + tail.bytes.length < 256
  strings_ok : ∀ s ∈ strings, s ≠ [] ∧ ∀ b ∈ s, b ≠ 0

/-- The string table behind the formatted area, which ends with two zeros. -/
def stringSection (strings : List Bytes) : Bytes :=
  strings.flatMap (fun s => s ++ [0]) ++ if strings = [] then [0, 0] else [0]

/-- The fields of SMBIOS 2.1. -/
def header (r : Type17Record) : Bytes :=
  [0x11, UInt8.ofNat (0x15 + r.tail.bytes.length)] ++ leBytes 2 r.handle.toNat ++
    leBytes 2 r.arrayHandle.toNat ++ leBytes 2 r.errorHandle.toNat ++
    leBytes 2 r.totalWidth.toNat ++ leBytes 2 r.dataWidth.toNat ++ leBytes 2 r.size.field ++
    [r.formFactor, r.deviceSet, r.locator, r.bankLocator, r.memoryType] ++
    leBytes 2 r.typeDetail.toNat

/-- The raw bytes of a record. -/
def encode (r : Type17Record) : Bytes := header r ++ (r.tail.bytes ++ stringSection r.strings)

/-- The string with an index, if there is one. -/
def Type17Record.string (r : Type17Record) (idx : UInt8) : Bytes :=
  if idx = 0 then [] else r.strings.getD (idx.toNat - 1) []

/-- The record `info` has the handle, the speed and the strings of `r`. -/
structure Carries (r : Type17Record) (info : DIMMInfo Bytes) : Prop where
  handle : info.handle = r.handle
  speed : info.speedMHz = r.tail.identity.speed.toUInt32
  locator : info.locator = r.string r.locator
  bankLocator : info.bankLocator = r.string r.bankLocator
  manufacturer : info.manufacturer = r.string r.tail.identity.manufacturer
  serialNumber : info.serialNumber = r.string r.tail.identity.serialNumber
  partNumber : info.partNumber = trimSpaceBytes (r.string r.tail.identity.partNumber)

/-- The decoder gives the record back. -/
def ReadsBack (r : Type17Record) : Prop :=
  ∃ info, (∀ spare, parseSMBIOSType17 ⟨encode r, spare⟩ = .ok (.ok info)) ∧
    Carries r info ∧ info.sizeMB.toNat = r.size.mib

/-! ## The string table -/

/-- The strings are read back from their section. -/
theorem stringTable_section {strings : List Bytes}
    (h : ∀ s ∈ strings, s ≠ [] ∧ ∀ b ∈ s, b ≠ 0) :
    stringTable (stringSection strings) = strings := by
  have hwalk : ∀ ss : List Bytes, (∀ s ∈ ss, s ≠ [] ∧ ∀ b ∈ s, b ≠ 0) → ∀ rest,
      stringTable (ss.flatMap (fun s => s ++ [0]) ++ 0 :: rest) = ss := by
    intro ss
    induction ss with
    | nil => exact fun _ rest => stringTable_zero rest
    | cons s ss ih =>
        intro hss rest
        obtain ⟨hne, hs⟩ := hss s List.mem_cons_self
        have hrest := ih (fun t ht => hss t (List.mem_cons_of_mem s ht)) rest
        rw [List.flatMap_cons, List.append_assoc, List.append_assoc, List.singleton_append,
          stringTable_terminated hne hs, hrest]
  unfold stringSection
  split
  · exact hwalk strings h [0]
  · exact hwalk strings h []

/-- A string is read back by its index. -/
theorem getString_eq (r : Type17Record) (idx : UInt8) :
    getString r.strings idx.toNat = r.string idx := by
  unfold getString Type17Record.string
  by_cases hzero : idx = 0
  · rw [if_pos hzero, hzero]
    rfl
  · have hpos : idx.toNat ≠ 0 := fun h => hzero (UInt8.toNat_inj.mp h)
    rw [if_neg hzero]
    split
    · rename_i hout
      exact (List.getD_eq_default _ _ (by omega)).symm
    · rfl

theorem trimSpaceBytes_nil : trimSpaceBytes [] = [] := rfl

/-- A string is read back trimmed. -/
theorem trimmed_eq (r : Type17Record) (idx : UInt8) :
    trimmed r.strings idx.toNat = trimSpaceBytes (r.string idx) := by
  rw [← getString_eq, getString, trimmed]
  split
  · exact trimSpaceBytes_nil.symm
  · rfl

/-! ## The fields -/

/-- A 16-bit number is read back. -/
theorem word16_eq {bytes : Bytes} {offset n : Nat} (h : peek bytes ⟨offset, 2⟩ = leBytes 2 n)
    (hn : n < 2 ^ 16) : (word16 bytes offset).toNat = n := by
  rw [word16, h, leNat_leBytes, show 256 ^ 2 = 2 ^ 16 by rfl, Nat.mod_eq_of_lt hn]
  exact UInt16.toNat_ofNat_of_lt' hn

/-- A 16-bit word is read back. -/
theorem word16_eq_toNat {bytes : Bytes} {offset : Nat} {n : UInt16}
    (h : peek bytes ⟨offset, 2⟩ = leBytes 2 n.toNat) : word16 bytes offset = n :=
  UInt16.toNat_inj.mp (word16_eq h n.toNat_lt)

theorem length_header (r : Type17Record) : (header r).length = 0x15 := rfl

/-- The length byte covers the header and the tail. -/
theorem fmtLen_encode (r : Type17Record) : fmtLen (encode r) = 0x15 + r.tail.bytes.length := by
  show (UInt8.ofNat (0x15 + r.tail.bytes.length)).toNat = _
  exact UInt8.toNat_ofNat_of_lt' r.length_fits

/-- Behind the formatted part stand the strings. -/
theorem drop_encode (r : Type17Record) :
    (encode r).drop (fmtLen (encode r)) = stringSection r.strings := by
  rw [fmtLen_encode, encode, ← List.append_assoc, List.drop_left']
  rw [List.length_append, length_header]

/-- The later versions have at least the six bytes of 2.3. -/
theorem tail_cases (tail : Tail) :
    tail = .v21 ∨ ∃ rest, tail.bytes = identityBytes tail.identity ++ rest := by
  cases tail with
  | v21 => exact Or.inl rfl
  | v23 identity => exact Or.inr ⟨[], (List.append_nil _).symm⟩
  | v26 identity attributes => exact Or.inr ⟨[attributes], rfl⟩
  | v27 identity attributes extendedSize configuredSpeed more =>
      refine Or.inr ⟨[attributes] ++ leBytes 4 extendedSize ++
        leBytes 2 configuredSpeed.toNat ++ more, ?_⟩
      simp only [Tail.bytes, Tail.identity, List.append_assoc]

/-- A record of version 2.1 has no later strings. -/
theorem laterIndex_v21 {r : Type17Record} (h : r.tail = .v21) (offset : Nat) :
    laterIndex (encode r) offset = 0 := by
  rw [laterIndex, fmtLen_encode, h]
  rfl

/-- The formatted area never ends inside the field `Speed`. -/
theorem length_tail (r : Type17Record) : r.tail = .v21 ∨ 6 ≤ r.tail.bytes.length := by
  rcases tail_cases r.tail with h | ⟨rest, hrest⟩
  · exact Or.inl h
  · right
    rw [hrest, List.length_append]
    exact Nat.le_add_right 6 _

/-- The formatted part is within the record. -/
theorem fmtLen_le (r : Type17Record) : fmtLen (encode r) ≤ (encode r).length := by
  rw [fmtLen_encode, encode, List.length_append, List.length_append, length_header]
  omega

/-- The decoder on the bytes of a record. -/
theorem parse_encode (r : Type17Record) (spare : Bytes) :
    parseSMBIOSType17 ⟨encode r, spare⟩ = .ok (.ok (decoded (encode r))) := by
  have hlength : fmtLen (encode r) ≤ (encode r).length := fmtLen_le r
  have hfmt := fmtLen_encode r
  have hmin : smbiosType17MinLen ≤ (encode r).length := by
    show 0x15 ≤ _
    omega
  refine parse_eq_decoded ⟨encode r, spare⟩ hmin rfl hlength ?_
  intro ⟨hcut, _⟩
  have hcut : fmtLen (encode r) = 0x16 := hcut
  rcases length_tail r with h | h
  · rw [hfmt, h] at hcut
    cases hcut
  · omega

/-- The speed is read back. -/
theorem speed_encode (r : Type17Record) :
    (decoded (encode r)).speedMHz = r.tail.identity.speed.toUInt32 := by
  show (if fmtLen (encode r) > 0x15 then _ else _) = _
  rw [fmtLen_encode]
  rcases tail_cases r.tail with h | ⟨rest, hrest⟩
  · rw [h]
    rfl
  · have hlong : 0x15 + r.tail.bytes.length > 0x15 := by
      rw [hrest, List.length_append]
      show 0x15 < 0x15 + (6 + rest.length)
      omega
    have hpeek : peek (encode r) ⟨0x15, 2⟩ = leBytes 2 r.tail.identity.speed.toNat := by
      rw [encode, hrest]
      rfl
    rw [if_pos hlong, word16_eq_toNat hpeek]

/-- The indices since 2.3. -/
theorem laterIndex_encode (r : Type17Record) :
    laterIndex (encode r) 0x17 = r.tail.identity.manufacturer.toNat ∧
      laterIndex (encode r) 0x18 = r.tail.identity.serialNumber.toNat ∧
      laterIndex (encode r) 0x1A = r.tail.identity.partNumber.toNat := by
  rcases tail_cases r.tail with h | ⟨rest, hrest⟩
  · rw [laterIndex_v21 h, laterIndex_v21 h, laterIndex_v21 h, h]
    exact ⟨rfl, rfl, rfl⟩
  · have hlong : fmtLen (encode r) > 0x1A := by
      rw [fmtLen_encode, hrest, List.length_append]
      show 0x1A < 0x15 + (6 + rest.length)
      omega
    rw [laterIndex, laterIndex, laterIndex, if_pos hlong, if_pos hlong, if_pos hlong, encode, hrest]
    exact ⟨rfl, rfl, rfl⟩

/-- **Handle, speed and strings** come back from every record. -/
theorem carries_decoded (r : Type17Record) : Carries r (decoded (encode r)) := by
  obtain ⟨hmfr, hserial, hpart⟩ := laterIndex_encode r
  have hstrings : strings (encode r) = r.strings := by
    rw [strings, drop_encode, stringTable_section r.strings_ok]
  have hlocator : (encode r).getD 0x10 0 = r.locator := rfl
  have hbankLocator : (encode r).getD 0x11 0 = r.bankLocator := rfl
  have hhandle : peek (encode r) ⟨2, 2⟩ = leBytes 2 r.handle.toNat := rfl
  constructor
  · exact word16_eq_toNat hhandle
  · exact speed_encode r
  · simp only [decoded, hstrings, hlocator, getString_eq]
  · simp only [decoded, hstrings, hbankLocator, getString_eq]
  · simp only [decoded, hstrings, hmfr, getString_eq]
  · simp only [decoded, hstrings, hserial, getString_eq]
  · simp only [decoded, hstrings, hpart, trimmed_eq]

/-! ## The size -/

/-- A size's field has 16 bits and is not the value for unknown. -/
theorem field_lt (r : Type17Record) : r.size.field < 2 ^ 16 ∧ r.size.field ≠ 0xFFFF := by
  have hfits := r.size_fits
  cases hsize : r.size with
  | megabytes n =>
      rw [hsize] at hfits
      have hn : n < 0x7FFF := hfits
      show n < 2 ^ 16 ∧ n ≠ 0xFFFF
      omega
  | kilobytes n =>
      rw [hsize] at hfits
      have hn : n < 0x7FFF := hfits
      show 0x8000 + n < 2 ^ 16 ∧ 0x8000 + n ≠ 0xFFFF
      omega
  | extended n => exact (by decide : 0x7FFF < 2 ^ 16 ∧ 0x7FFF ≠ 0xFFFF)

/-- Bit 15 of a field. -/
theorem and_topBit_ne_zero_iff (x : UInt16) : x &&& 0x8000 ≠ 0 ↔ 0x8000 ≤ x.toNat := by
  have hbit : x.toBitVec &&& 0x8000#16 = if x.toBitVec.getLsbD 15 then 0x8000#16 else 0#16 :=
    BitVec.and_twoPow x.toBitVec 15
  have hmsb : x.toBitVec.getLsbD 15 = decide (0x8000 ≤ x.toNat) := by
    rw [← BitVec.msb_eq_getLsbD_last x.toBitVec, BitVec.msb_eq_decide]
    rfl
  rw [ne_eq, ← UInt16.toBitVec_inj]
  show ¬ (x.toBitVec &&& 0x8000#16 = 0#16) ↔ _
  rw [hbit, hmsb]
  by_cases h : 0x8000 ≤ x.toNat
  · simp [h]
  · simp [h]

/-- The size of a record, read back from a field that is not 0xFFFF. -/
theorem sizeMB_encode (r : Type17Record) :
    (decoded (encode r)).sizeMB.toNat =
      if 0x8000 ≤ r.size.field then (r.size.field - 0x8000) / 1024 else r.size.field := by
  obtain ⟨hlt, hne⟩ := field_lt r
  have hpeek : peek (encode r) ⟨0x0C, 2⟩ = leBytes 2 r.size.field := rfl
  have hword : (word16 (encode r) 0x0C).toNat = r.size.field := word16_eq hpeek hlt
  have hraw : word16 (encode r) 0x0C ≠ 0xFFFF := by
    intro h
    rw [h] at hword
    exact hne hword.symm
  have hsize : (decoded (encode r)).sizeMB = decodedSize (encode r) := rfl
  rw [hsize, decodedSize, if_neg hraw]
  by_cases htop : 0x8000 ≤ r.size.field
  · rw [if_pos ((and_topBit_ne_zero_iff _).mpr (by rw [hword]; exact htop)), if_pos htop]
    have hmask : ((word16 (encode r) 0x0C) &&& 0x7FFF).toNat = r.size.field % 2 ^ 15 := by
      rw [UInt16.toNat_and, hword]
      exact Nat.and_two_pow_sub_one_eq_mod _ 15
    have hkilo : (1024 : UInt64).toNat = 1024 := UInt64.toNat_ofNat_of_lt (by decide)
    have hlow : r.size.field % 2 ^ 15 = r.size.field - 0x8000 := by omega
    rw [UInt64.toNat_div, UInt16.toNat_toUInt64, hmask, hkilo, hlow]
  · rw [if_neg (mt (and_topBit_ne_zero_iff _).mp (by rw [hword]; exact htop)), if_neg htop,
      UInt16.toNat_toUInt64, hword]

/-- **Memory device records.**  The decoder gives a record back, if and only if its size
does not need the extended field, or is 32767 MB. -/
theorem reads_back_iff (r : Type17Record) :
    ReadsBack r ↔ ∀ n, r.size = .extended n → n = 0x7FFF := by
  have hsize := sizeMB_encode r
  have hread : ReadsBack r ↔ (decoded (encode r)).sizeMB.toNat = r.size.mib := by
    constructor
    · intro ⟨info, hparse, _, hmib⟩
      have hsame := (parse_encode r []).symm.trans (hparse [])
      rw [Except.ok.inj (Except.ok.inj hsame)]
      exact hmib
    · intro hmib
      exact ⟨decoded (encode r), parse_encode r, carries_decoded r, hmib⟩
  have hfits := r.size_fits
  rw [hread, hsize]
  cases hway : r.size with
  | megabytes n =>
      rw [hway] at hfits
      have hn : n < 0x7FFF := hfits
      have hfield : (InstalledSize.megabytes n).field = n := rfl
      rw [hfield, if_neg (by omega)]
      simp [InstalledSize.mib]
  | kilobytes n =>
      have hfield : (InstalledSize.kilobytes n).field = 0x8000 + n := rfl
      rw [hfield, if_pos (Nat.le_add_right _ _), Nat.add_sub_cancel_left]
      simp [InstalledSize.mib]
  | extended n =>
      have hfield : (InstalledSize.extended n).field = 0x7FFF := rfl
      rw [hfield, if_neg (by decide)]
      simp [InstalledSize.mib, eq_comm]

/-- A module of 64 GB. -/
def largeModule : Type17Record where
  handle := 0x11
  arrayHandle := 0x10
  errorHandle := 0xFFFE
  totalWidth := 72
  dataWidth := 64
  size := .extended 65536
  formFactor := 9
  deviceSet := 0
  locator := 1
  bankLocator := 2
  memoryType := 0x22
  typeDetail := 0x80
  tail := .v27 ⟨4800, 3, 0, 0, 0⟩ 1 65536 4800 []
  strings := [[0x41, 0x31], [0x42], [0x53]]
  size_fits := ⟨by decide, by decide, rfl⟩
  length_fits := by decide
  strings_ok := by simp

/-- A module of 32 GiB or more is read as 32767 MiB. -/
theorem large_module_misread :
    ¬ ReadsBack largeModule ∧ (decoded (encode largeModule)).sizeMB = 32767 := by
  have hsize : (decoded (encode largeModule)).sizeMB.toNat = 32767 := sizeMB_encode largeModule
  refine ⟨?_, UInt64.toNat_inj.mp hsize⟩
  intro ⟨info, hparse, _, hmib⟩
  have hsame := (parse_encode largeModule []).symm.trans (hparse [])
  rw [← Except.ok.inj (Except.ok.inj hsame), hsize] at hmib
  exact absurd hmib (by decide)

end FaultOracle.Dimm
