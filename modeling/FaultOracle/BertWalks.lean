import FaultOracle.BertRecords
import FaultOracle.CheckedLoops
import FaultOracle.EbpfEdac

/-!
# The walks through the boot error region

`parseBERTRecordCounts` and `parse_cper_records` with every slice and every read they evaluate,
each of which may fail, and with Go's machine arithmetic.  A walk also notes where the headers
lie which it has read.

A header lies wholly before the offset at which the walk goes on, so a walk passes over every
byte at most once.  `walks_stay_inside` draws the conclusions: neither walk fails or runs
forever, the headers lie in the region and apart from each other, and the Go counts sum up to
their number.
-/

namespace FaultOracle.Bert

open CheckedLoops InsertionDict
open Ebpf (GoSlice GoPanic)

/-! ## The Go walk -/

/-- What `os.ReadFile` returns on a 64-bit port, whose heap has addresses of 48 bits. -/
structure FileBytes where
  data : GoSlice
  length_le : data.bytes.length ≤ 2 ^ 48

/-- What an `int` of 64 bits makes of a number. -/
def int64 (n : Int) : Int := n.bmod (2 ^ 64)

/-- `s[low:]`, which ends where `s` does. -/
def sliceFrom (s : GoSlice) (low : Int) : Except GoPanic GoSlice :=
  if 0 ≤ low ∧ low ≤ s.bytes.length then s.slice low.toNat s.bytes.length
  else .error .sliceBounds

/-- `binary.LittleEndian.Uint32(s[low:])`, or with another number of bytes. -/
def wordFrom (size : Nat) (s : GoSlice) (low : Int) : Except GoPanic Nat := do
  let rest ← sliceFrom s low
  if rest.bytes.length < size then .error .indexOutOfRange
  else return littleEndian (rest.bytes.take size)

/-- The region which `parseBERTRecordCounts` walks, or the error it returns. -/
def bertRegion (data : GoSlice) : Except GoPanic (Except String GoSlice) :=
  if data.bytes.length < acpiTableHeaderSize + bertBodySize then
    return .error ("BERT table too short (" ++ toString data.bytes.length ++ " bytes)")
  else do
    let regionLength ← wordFrom 4 data acpiTableHeaderSize
    let regionOffset ← wordFrom 8 data (acpiTableHeaderSize + 4 : Nat)
    if data.bytes.length < regionOffset then
      return .error ("BERT: regionOffset " ++ toString regionOffset ++ " exceeds table size " ++
        toString data.bytes.length)
    else if 0 < regionOffset ∧ (regionOffset + cperMinSize) % 2 ^ 64 ≤ data.bytes.length ∧
        regionOffset < data.bytes.length ∧
        regionLength ≤ (data.bytes.length - regionOffset) % 2 ^ 64 then
      return .ok (← data.slice regionOffset ((regionOffset + regionLength) % 2 ^ 64))
    else return .ok (← sliceFrom data (acpiTableHeaderSize + bertBodySize : Nat))

/-- The variables of the loop, and beside them the offsets of the headers it has read. -/
structure CountWalk where
  offset : Int
  counts : List (String × Nat)
  headers : List Int

def CountWalk.start : CountWalk := ⟨0, [], []⟩

/-- A turn of the loop of `parseBERTRecordCounts`. -/
def countTurn (region : GoSlice) (w : CountWalk) : Except GoPanic (Turn CountWalk CountWalk) :=
  if int64 (w.offset + cperMinSize) ≤ region.bytes.length then do
    let sig ← wordFrom 4 region w.offset
    if sig ≠ cperSignature then return .done w
    else
      let recordLength ← wordFrom 4 region (int64 (w.offset + 20))
      let severityRaw ← wordFrom 4 region (int64 (w.offset + 24))
      let counts := increment w.counts (severityName severityRaw)
      let headers := w.headers ++ [w.offset]
      if int64 recordLength < cperMinSize then return .done ⟨w.offset, counts, headers⟩
      else return .again ⟨int64 (w.offset + int64 recordLength), counts, headers⟩
  else return .done w

/-- `parseBERTRecordCounts`, in so many turns: the region and the walk through it. -/
def countBert (fuel : Nat) (data : GoSlice) :
    Option (Except GoPanic (Except String (GoSlice × CountWalk))) :=
  match bertRegion data with
  | .error panic => some (.error panic)
  | .ok (.error text) => some (.ok (.error text))
  | .ok (.ok region) =>
      (runLoop (countTurn region) fuel .start).map (Except.map fun w => .ok (region, w))

/-! ## The Python walk -/

/-- `struct.error`. -/
inductive StructError
  | tooShort
deriving DecidableEq, Repr

/-- `struct.unpack_from` of one number. -/
def unpackFrom (size : Nat) (data : Bytes) (offset : Nat) : Except StructError Nat :=
  if data.length < offset + size then .error .tooShort
  else .ok (littleEndian ((data.drop offset).take size))

/-- The loop over the section descriptors, `count` of which are still to be read. -/
def unpackSections (regionData : Bytes) : Nat → Nat → Except StructError (List CperSection)
  | 0, _ => .ok []
  | count + 1, descOffset =>
      if regionData.length < descOffset + CPER_SECTION_DESC_SIZE then .ok []
      else do
        let sectOffset ← unpackFrom 4 regionData descOffset
        let sectLength ← unpackFrom 2 regionData (descOffset + 4)
        let guid := slice regionData (descOffset + 4) (descOffset + 20)
        let sections ← unpackSections regionData count (descOffset + CPER_SECTION_DESC_SIZE)
        return ⟨(cperSectionTypes.lookup guid).getD "unknown", sectLength, sectOffset⟩ :: sections

/-- The variables of the loop, and beside them the offsets of the headers it has read. -/
structure RecordWalk where
  offset : Nat
  records : List CperRecord
  headers : List Int

def RecordWalk.start : RecordWalk := ⟨0, [], []⟩

/-- A turn of the loop of `parse_cper_records`. -/
def recordTurn (regionData : Bytes) (w : RecordWalk) :
    Except StructError (Turn RecordWalk RecordWalk) :=
  if w.offset + CPER_HEADER_SIZE ≤ regionData.length then
    match unpackFrom CPER_HEADER_SIZE regionData w.offset with
    | .error _ => return .done w
    | .ok _ =>
        if slice regionData w.offset (w.offset + 4) ≠ cperMark then return .done w
        else do
          let recordLength ← unpackFrom 4 regionData (w.offset + 20)
          let severityRaw ← unpackFrom 4 regionData (w.offset + 24)
          let sectionCount ← unpackFrom 2 regionData (w.offset + 18)
          let sections ← unpackSections regionData sectionCount (w.offset + 128)
          let records := w.records ++ [⟨severity severityRaw, sectionCount, recordLength, sections⟩]
          let headers := w.headers ++ [(w.offset : Int)]
          if recordLength < CPER_HEADER_SIZE then return .done ⟨w.offset, records, headers⟩
          else return .again ⟨w.offset + recordLength, records, headers⟩
  else return .done w

/-! ## Headers -/

/-- Headers of a size lie in a region of a length, and none overlaps another. -/
structure Apart (size length : Nat) (headers : List Int) : Prop where
  inside : ∀ o ∈ headers, 0 ≤ o ∧ o + size ≤ length
  disjoint : headers.Pairwise fun a b : Int => a + size ≤ b ∨ b + size ≤ a

/-- Headers which lie apart, and all before an offset. -/
structure Passed (size length : Nat) (headers : List Int) (offset : Int) : Prop where
  apart : Apart size length headers
  before : ∀ o ∈ headers, o + size ≤ offset

variable {size length : Nat} {headers : List Int} {offset offset' : Int}

theorem passed_nil : Passed size length [] offset := ⟨⟨by simp, .nil⟩, by simp⟩

/-- One more header at the offset lies apart from those before. -/
theorem Passed.read (h : Passed size length headers offset) (hpos : 0 ≤ offset)
    (hfits : offset + size ≤ length) : Apart size length (headers ++ [offset]) := by
  constructor
  · intro o ho
    rcases List.mem_append.mp ho with ho | ho
    · exact h.apart.inside o ho
    · rw [List.mem_singleton.mp ho]
      exact ⟨hpos, hfits⟩
  · rw [List.pairwise_append]
    refine ⟨h.apart.disjoint, List.pairwise_singleton _ _, ?_⟩
    intro a ha b hb
    rw [List.mem_singleton.mp hb]
    exact Or.inl (h.before a ha)

/-- So it does when the walk goes on behind it. -/
theorem Passed.next (h : Passed size length headers offset) (hpos : 0 ≤ offset)
    (hfits : offset + size ≤ length) (hnext : offset + size ≤ offset') :
    Passed size length (headers ++ [offset]) offset' := by
  refine ⟨h.read hpos hfits, ?_⟩
  intro o ho
  rcases List.mem_append.mp ho with ho | ho
  · have hbefore := h.before o ho
    omega
  · rw [List.mem_singleton.mp ho]
    exact hnext

/-! ## Reads of the Go walk -/

section Go

variable {s region : GoSlice} {low : Int}

/-- A small number is kept by 64 bits. -/
theorem int64_of_small {n : Int} (hpos : 0 ≤ n) (hsmall : n < 2 ^ 63) : int64 n = n :=
  Int.bmod_eq_of_le (by omega) (by omega)

/-- A slice from within the data is what is left. -/
theorem sliceFrom_eq (hpos : 0 ≤ low) (hle : low ≤ s.bytes.length) :
    ∃ rest, sliceFrom s low = .ok rest ∧ rest.bytes = s.bytes.drop low.toNat := by
  have hlow : low.toNat ≤ s.bytes.length := by omega
  refine ⟨_, by rw [sliceFrom, if_pos ⟨hpos, hle⟩, GoSlice.slice, if_pos ⟨hlow, by omega⟩], ?_⟩
  show ((s.bytes ++ s.spare).drop low.toNat).take _ = _
  rw [List.drop_append_of_le_length hlow, List.take_append_of_le_length (by simp),
    List.take_of_length_le (by simp)]

/-- A number inside of a slice is read. -/
theorem wordFrom_eq (hpos : 0 ≤ low) (hle : low + size ≤ s.bytes.length) :
    wordFrom size s low = .ok (littleEndian ((s.bytes.drop low.toNat).take size)) := by
  obtain ⟨rest, hrest, hbytes⟩ := sliceFrom_eq (s := s) hpos (by omega)
  have hlong : ¬ rest.bytes.length < size := by
    rw [hbytes, List.length_drop]
    omega
  rw [wordFrom, hrest]
  show (if rest.bytes.length < size then _ else _) = _
  rw [if_neg hlong, hbytes]
  rfl

/-- A 32-bit field has 32 bits. -/
theorem uint32At_lt (data : Bytes) (offset : Nat) : uint32At data offset < 2 ^ 32 := by
  have hlt := littleEndian_lt ((data.drop offset).take 4)
  have hlength : ((data.drop offset).take 4).length ≤ 4 := List.length_take_le ..
  calc uint32At data offset < 256 ^ ((data.drop offset).take 4).length := hlt
    _ ≤ 256 ^ 4 := Nat.pow_le_pow_right (by decide) hlength
    _ = 2 ^ 32 := by decide

/-- What holds of the walk before a turn. -/
structure CountInv (region : GoSlice) (w : CountWalk) : Prop where
  nonneg : 0 ≤ w.offset
  small : w.offset < 2 ^ 62
  passed : Passed cperMinSize region.bytes.length w.headers w.offset
  total : (w.counts.map Prod.snd).sum = w.headers.length
  rest : countRecords region.bytes w.offset.toNat w.counts = countRecords region.bytes 0 []

/-- What a walk through a region has counted, and where. -/
structure CountedAll (region : GoSlice) (w : CountWalk) : Prop where
  apart : Apart cperMinSize region.bytes.length w.headers
  total : (w.counts.map Prod.snd).sum = w.headers.length
  counts : w.counts = countRecords region.bytes 0 []

/-- Counting a name adds one to the sum. -/
theorem sum_increment (counts : List (String × Nat)) (name : String) :
    ((increment counts name).map Prod.snd).sum = (counts.map Prod.snd).sum + 1 :=
  sum_bump counts name

/-- A turn in which a header fits reads its signature, and its fields when that is right. -/
theorem countTurn_fits {w : CountWalk} (hinv : CountInv region w)
    (hfits : w.offset + cperMinSize ≤ region.bytes.length) :
    countTurn region w =
      if uint32At region.bytes w.offset.toNat ≠ cperSignature then .ok (.done w)
      else
        let counts := increment w.counts
          (severityName (uint32At region.bytes (w.offset.toNat + 24)))
        let headers := w.headers ++ [w.offset]
        let recordLength := uint32At region.bytes (w.offset.toNat + 20)
        if recordLength < cperMinSize then .ok (.done ⟨w.offset, counts, headers⟩)
        else .ok (.again ⟨w.offset + recordLength, counts, headers⟩) := by
  have hpos := hinv.nonneg
  have hsmall := hinv.small
  have hmin : (cperMinSize : Int) = 128 := rfl
  have hlength := uint32At_lt region.bytes (w.offset.toNat + 20)
  rw [hmin] at hfits
  have hsig : wordFrom 4 region w.offset = .ok (uint32At region.bytes w.offset.toNat) :=
    wordFrom_eq hpos (by omega)
  have hlow (k : Nat) (hk : k ≤ 124) : int64 (w.offset + k) = w.offset + k :=
    int64_of_small (by omega) (by omega)
  have hread (k : Nat) (hk : k ≤ 124) : wordFrom 4 region (int64 (w.offset + k)) =
      .ok (uint32At region.bytes (w.offset.toNat + k)) := by
    rw [hlow k hk, wordFrom_eq (by omega) (by omega), Int.toNat_add hpos (by omega)]
    rfl
  have hguard : int64 (w.offset + (cperMinSize : Int)) ≤ region.bytes.length := by
    rw [hmin, int64_of_small (by omega) (by omega)]
    exact hfits
  have hrecord : int64 (uint32At region.bytes (w.offset.toNat + 20) : Nat) =
      (uint32At region.bytes (w.offset.toNat + 20) : Nat) := int64_of_small (by omega) (by omega)
  have hnext : int64 (w.offset + (uint32At region.bytes (w.offset.toNat + 20) : Nat)) =
      w.offset + (uint32At region.bytes (w.offset.toNat + 20) : Nat) :=
    int64_of_small (by omega) (by omega)
  have hread20 := hread 20 (by decide)
  have hread24 := hread 24 (by decide)
  rw [Nat.cast_ofNat] at hread20 hread24
  rw [countTurn, if_pos hguard]
  simp only [hsig, hread20, hread24, hrecord, hnext, bind, Except.bind, pure, Except.pure,
    Int.ofNat_lt]

/-- **A turn** fails nowhere; it counts the record at its offset, if there is one, and either is
done or goes on behind the header. -/
theorem countTurn_cases (hregion : region.bytes.length ≤ 2 ^ 48) {w : CountWalk}
    (hinv : CountInv region w) :
    (∃ w', countTurn region w = .ok (.done w') ∧ CountedAll region w') ∨
      ∃ w', countTurn region w = .ok (.again w') ∧ CountInv region w' ∧
        (region.bytes.length + 1 - w'.offset).toNat < (region.bytes.length + 1 - w.offset).toNat := by
  have hpos := hinv.nonneg
  have hsmall := hinv.small
  have hmin : cperMinSize = 128 := rfl
  by_cases hfits : w.offset + cperMinSize ≤ region.bytes.length
  · have hroom : w.offset.toNat + cperMinSize ≤ region.bytes.length := by omega
    have hlt := uint32At_lt region.bytes (w.offset.toNat + 20)
    have hrest := hinv.rest
    rw [countRecords, dif_pos hroom] at hrest
    rw [countTurn_fits hinv hfits]
    split
    · rename_i hsig
      rw [if_pos hsig] at hrest
      exact Or.inl ⟨w, rfl, hinv.passed.apart, hinv.total, hrest⟩
    · rename_i hsig
      rw [if_neg hsig] at hrest
      have htotal : ((increment w.counts (severityName (uint32At region.bytes
          (w.offset.toNat + 24)))).map Prod.snd).sum = (w.headers ++ [w.offset]).length := by
        rw [sum_increment, hinv.total, List.length_append, List.length_singleton]
      dsimp only at hrest ⊢
      split
      · rename_i hshort
        rw [dif_pos hshort] at hrest
        exact Or.inl ⟨_, rfl, hinv.passed.read hpos hfits, htotal, hrest⟩
      · rename_i hlong
        rw [dif_neg hlong] at hrest
        refine Or.inr ⟨_, rfl, ⟨?_, ?_, hinv.passed.next hpos hfits ?_, htotal, ?_⟩, ?_⟩
        · show 0 ≤ w.offset + (uint32At region.bytes (w.offset.toNat + 20) : Nat)
          omega
        · show w.offset + (uint32At region.bytes (w.offset.toNat + 20) : Nat) < 2 ^ 62
          omega
        · show w.offset + (cperMinSize : Nat) ≤ w.offset + (uint32At _ _ : Nat)
          omega
        · show countRecords region.bytes (w.offset + (uint32At _ _ : Nat)).toNat _ = _
          rw [Int.toNat_add hpos (by omega), Int.toNat_natCast]
          exact hrest
        · show (_ - (w.offset + (uint32At region.bytes (w.offset.toNat + 20) : Nat))).toNat < _
          omega
  · have hroom : ¬ w.offset.toNat + cperMinSize ≤ region.bytes.length := by omega
    have hrest := hinv.rest
    rw [countRecords, dif_neg hroom] at hrest
    have hguard : ¬ int64 (w.offset + (cperMinSize : Int)) ≤ region.bytes.length := by
      rw [int64_of_small (by omega) (by omega)]
      exact hfits
    refine Or.inl ⟨w, ?_, hinv.passed.apart, hinv.total, hrest⟩
    rw [countTurn, if_neg hguard]
    rfl

theorem countInv_start (region : GoSlice) : CountInv region .start :=
  ⟨le_refl _, by decide, passed_nil, rfl, rfl⟩

/-- **The Go loop** returns, and has counted all records of the region. -/
theorem countTurn_returns (hregion : region.bytes.length ≤ 2 ^ 48) :
    ∃ w, Returns (countTurn region) .start w ∧ CountedAll region w :=
  exists_returns (fun w => (region.bytes.length + 1 - w.offset).toNat)
    (fun _ hinv => countTurn_cases hregion hinv) (countInv_start region)

/-- The table names a region as it does without checks, or is rejected by its length. -/
theorem bertRegion_unfold {data : GoSlice} (hlength : data.bytes.length ≤ 2 ^ 48)
    (hlong : ¬ data.bytes.length < acpiTableHeaderSize + bertBodySize) :
    bertRegion data =
      if data.bytes.length < regionOffset data.bytes then
        .ok (.error ("BERT: regionOffset " ++ toString (regionOffset data.bytes) ++
          " exceeds table size " ++ toString data.bytes.length))
      else if Sliced data.bytes then
        (data.slice (regionOffset data.bytes)
          (regionOffset data.bytes + regionLength data.bytes)).map .ok
      else (sliceFrom data (acpiTableHeaderSize + bertBodySize : Nat)).map .ok := by
  have hheader : acpiTableHeaderSize = 36 := rfl
  have hbody : bertBodySize = 12 := rfl
  have hmin : cperMinSize = 128 := rfl
  have hlt := uint32At_lt data.bytes acpiTableHeaderSize
  have hread : wordFrom 4 data acpiTableHeaderSize = .ok (regionLength data.bytes) :=
    wordFrom_eq (by omega) (by omega)
  have hread' : wordFrom 8 data (acpiTableHeaderSize + 4 : Nat) = .ok (regionOffset data.bytes) :=
    wordFrom_eq (by omega) (by omega)
  rw [bertRegion, if_neg hlong]
  simp only [hread, hread', bind, Except.bind, pure, Except.pure]
  split
  · rfl
  · rename_i hoffset
    have hsliced : (0 < regionOffset data.bytes ∧
        (regionOffset data.bytes + cperMinSize) % 2 ^ 64 ≤ data.bytes.length ∧
        regionOffset data.bytes < data.bytes.length ∧
        regionLength data.bytes ≤ (data.bytes.length - regionOffset data.bytes) % 2 ^ 64) ↔
          Sliced data.bytes := by
      rw [Sliced, Nat.mod_eq_of_lt (by omega), Nat.mod_eq_of_lt (by omega)]
    have hsum : (regionOffset data.bytes + regionLength data.bytes) % 2 ^ 64 =
        regionOffset data.bytes + regionLength data.bytes :=
      Nat.mod_eq_of_lt (by rw [regionLength]; omega)
    simp only [hsliced, hsum]
    split
    · rename_i hhere
      cases data.slice (regionOffset data.bytes)
        (regionOffset data.bytes + regionLength data.bytes) <;> rfl
    · cases sliceFrom data (acpiTableHeaderSize + bertBodySize : Nat) <;> rfl

/-- **The region** is cut out of the table, or the table is rejected, as it is without checks. -/
theorem bertRegion_eq (file : FileBytes) :
    (∃ text, bertRegion file.data = .ok (.error text) ∧
        parseBERTRecordCounts file.data.bytes = .error text) ∨
      ∃ region, bertRegion file.data = .ok (.ok region) ∧
        region.bytes.length ≤ file.data.bytes.length ∧
        parseBERTRecordCounts file.data.bytes = .ok (countRecords region.bytes 0 []) := by
  have hheader : acpiTableHeaderSize + bertBodySize = 48 := rfl
  by_cases hshort : file.data.bytes.length < acpiTableHeaderSize + bertBodySize
  · exact Or.inl ⟨_, by rw [bertRegion, if_pos hshort]; rfl,
      by rw [parseBERTRecordCounts, if_pos hshort]⟩
  · rw [bertRegion_unfold file.length_le hshort, parseBERTRecordCounts, if_neg hshort]
    split
    · exact Or.inl ⟨_, rfl, rfl⟩
    · rename_i hoffset
      refine Or.inr ?_
      split
      · rename_i hsliced
        obtain ⟨hpos, hroom, hinside, hlength⟩ := hsliced
        have hbounds : regionOffset file.data.bytes ≤
            regionOffset file.data.bytes + regionLength file.data.bytes ∧
              regionOffset file.data.bytes + regionLength file.data.bytes ≤
                file.data.bytes.length + file.data.spare.length := ⟨by omega, by omega⟩
        have hbytes : ((file.data.bytes ++ file.data.spare).drop
            (regionOffset file.data.bytes)).take (regionOffset file.data.bytes +
              regionLength file.data.bytes - regionOffset file.data.bytes) =
                countedRegion file.data.bytes := by
          rw [countedRegion, if_pos ⟨hpos, hroom, hinside, hlength⟩, slice, List.drop_take,
            List.drop_append_of_le_length (by omega), List.take_append_of_le_length]
          rw [List.length_drop]
          omega
        refine ⟨_, by rw [GoSlice.slice, if_pos hbounds]; rfl, ?_, ?_⟩
        · show (((file.data.bytes ++ file.data.spare).drop _).take _).length ≤ _
          rw [hbytes, countedRegion, if_pos ⟨hpos, hroom, hinside, hlength⟩, slice,
            List.length_drop, List.length_take]
          omega
        · show _ = Except.ok (countRecords (((file.data.bytes ++ file.data.spare).drop _).take _)
            0 [])
          rw [hbytes]
      · rename_i hsliced
        have hinside : ((acpiTableHeaderSize + bertBodySize : Nat) : Int) ≤
            file.data.bytes.length := by omega
        obtain ⟨region, hregion, hbytes⟩ := sliceFrom_eq (Int.natCast_nonneg _) hinside
        refine ⟨region, by rw [hregion]; rfl, ?_, ?_⟩
        · rw [hbytes, List.length_drop]
          omega
        · rw [hbytes, countedRegion, if_neg hsliced, Int.toNat_natCast]

end Go

/-! ## Reads of the Python walk -/

section Python

variable {regionData : Bytes}

/-- Unpacking within the data does not raise. -/
theorem unpackFrom_eq {data : Bytes} {offset : Nat} (h : offset + size ≤ data.length) :
    unpackFrom size data offset = .ok (littleEndian ((data.drop offset).take size)) := by
  rw [unpackFrom, if_neg (by omega)]

/-- Descriptors are read only where they fit. -/
theorem unpackSections_eq (regionData : Bytes) (count descOffset : Nat) :
    unpackSections regionData count descOffset = .ok (cperSections regionData count descOffset) := by
  induction count generalizing descOffset with
  | zero => rfl
  | succ count ih =>
      have hsize : CPER_SECTION_DESC_SIZE = 38 := by decide
      rw [unpackSections, cperSections]
      split
      · rfl
      · rename_i hfits
        rw [hsize] at hfits
        rw [unpackFrom_eq (by omega), unpackFrom_eq (by omega), ih]
        rfl

/-- What holds of the walk before a turn. -/
structure RecordInv (regionData : Bytes) (w : RecordWalk) : Prop where
  passed : Passed CPER_HEADER_SIZE regionData.length w.headers w.offset
  reported : w.records.length = w.headers.length
  rest : w.records ++ cperRecordsFrom regionData w.offset = parseCperRecords regionData

/-- What a walk through a region has listed, and where. -/
structure ListedAll (regionData : Bytes) (w : RecordWalk) : Prop where
  apart : Apart CPER_HEADER_SIZE regionData.length w.headers
  reported : w.records.length = w.headers.length
  records : w.records = parseCperRecords regionData

/-- A turn in which a header fits reads its mark, and its fields when that is right. -/
theorem recordTurn_fits {w : RecordWalk}
    (hfits : w.offset + CPER_HEADER_SIZE ≤ regionData.length) :
    recordTurn regionData w =
      if slice regionData w.offset (w.offset + 4) ≠ cperMark then .ok (.done w)
      else
        let records := w.records ++ [cperRecord regionData w.offset]
        let headers := w.headers ++ [(w.offset : Int)]
        let recordLength := uint32At regionData (w.offset + 20)
        if recordLength < CPER_HEADER_SIZE then .ok (.done ⟨w.offset, records, headers⟩)
        else .ok (.again ⟨w.offset + recordLength, records, headers⟩) := by
  have hsize : CPER_HEADER_SIZE = 100 := cperHeaderSize_eq
  have hread (k : Nat) (hk : k ≤ 96) : unpackFrom 4 regionData (w.offset + k) =
      .ok (uint32At regionData (w.offset + k)) := unpackFrom_eq (by omega)
  have hcount : unpackFrom 2 regionData (w.offset + 18) =
      .ok (uint16At regionData (w.offset + 18)) := unpackFrom_eq (by omega)
  rw [recordTurn, if_pos hfits, unpackFrom_eq hfits]
  simp only [hread 20 (by decide), hread 24 (by decide), hcount, unpackSections_eq, bind,
    Except.bind, pure, Except.pure]
  rfl

/-- **A turn** fails nowhere; it lists the record at its offset, if there is one, and either is
done or goes on behind the header. -/
theorem recordTurn_cases {w : RecordWalk} (hinv : RecordInv regionData w) :
    (∃ w', recordTurn regionData w = .ok (.done w') ∧ ListedAll regionData w') ∨
      ∃ w', recordTurn regionData w = .ok (.again w') ∧ RecordInv regionData w' ∧
        regionData.length + 1 - w'.offset < regionData.length + 1 - w.offset := by
  have hsize : CPER_HEADER_SIZE = 100 := cperHeaderSize_eq
  have hrest := hinv.rest
  by_cases hfits : w.offset + CPER_HEADER_SIZE ≤ regionData.length
  · have hroom : (w.offset : Int) + CPER_HEADER_SIZE ≤ regionData.length := by omega
    rw [cperRecordsFrom, dif_pos hfits] at hrest
    rw [recordTurn_fits hfits]
    split
    · rename_i hmark
      rw [if_pos hmark, List.append_nil] at hrest
      exact Or.inl ⟨w, rfl, hinv.passed.apart, hinv.reported, hrest⟩
    · rename_i hmark
      rw [if_neg hmark] at hrest
      have hreported : (w.records ++ [cperRecord regionData w.offset]).length =
          (w.headers ++ [(w.offset : Int)]).length := by
        rw [List.length_append, List.length_append, hinv.reported]
        rfl
      dsimp only
      split
      · rename_i hshort
        rw [dif_pos hshort] at hrest
        exact Or.inl ⟨_, rfl, hinv.passed.read (by omega) hroom, hreported, hrest⟩
      · rename_i hlong
        rw [dif_neg hlong, List.append_cons] at hrest
        refine Or.inr ⟨_, rfl, ⟨hinv.passed.next (by omega) hroom ?_, hreported, hrest⟩, ?_⟩
        · rw [Nat.cast_add]
          omega
        · show _ - (w.offset + uint32At regionData (w.offset + 20)) < _
          omega
  · rw [cperRecordsFrom, dif_neg hfits, List.append_nil] at hrest
    refine Or.inl ⟨w, ?_, hinv.passed.apart, hinv.reported, hrest⟩
    rw [recordTurn, if_neg hfits]
    rfl

theorem recordInv_start (regionData : Bytes) : RecordInv regionData .start :=
  ⟨passed_nil, rfl, rfl⟩

/-- **The Python loop** returns, and has listed all records of the region. -/
theorem recordTurn_returns (regionData : Bytes) :
    ∃ w, Returns (recordTurn regionData) .start w ∧ ListedAll regionData w :=
  exists_returns (fun w => regionData.length + 1 - w.offset) (fun _ hinv => recordTurn_cases hinv)
    (recordInv_start regionData)

end Python

/-- **Both walks** of the boot error region return, and never read outside of it.  The Go walk
is given a table, which it may reject, and counts as many records as headers it has read; the
Python walk is given a region, and lists as many.  They are the walks of the readers without
checks. -/
theorem walks_stay_inside :
    (∀ file : FileBytes, ∃ outcome, (∃ turns, ∀ fuel, turns < fuel →
        countBert fuel file.data = some (.ok outcome)) ∧
      outcome.map (fun walked => walked.2.counts) = parseBERTRecordCounts file.data.bytes ∧
      ∀ region w, outcome = .ok (region, w) →
        Apart cperMinSize region.bytes.length w.headers ∧
          (w.counts.map Prod.snd).sum = w.headers.length) ∧
    ∀ regionData : Bytes, ∃ w, Returns (recordTurn regionData) .start w ∧
      w.records = parseCperRecords regionData ∧
      Apart CPER_HEADER_SIZE regionData.length w.headers ∧
        w.records.length = w.headers.length := by
  constructor
  · intro file
    rcases bertRegion_eq file with ⟨text, hregion, hsame⟩ | ⟨region, hregion, hlength, hsame⟩
    · refine ⟨.error text, ⟨0, fun fuel _ => ?_⟩, hsame.symm, fun _ _ h => nomatch h⟩
      rw [countBert, hregion]
    · obtain ⟨w, ⟨turns, hturns⟩, hw⟩ :=
        countTurn_returns (Nat.le_trans hlength file.length_le)
      refine ⟨.ok (region, w), ⟨turns, fun fuel hfuel => ?_⟩, ?_, ?_⟩
      · rw [countBert, hregion]
        simp only [hturns fuel hfuel, Option.map_some, Except.map]
      · rw [hsame, ← hw.counts]
        rfl
      · intro region' w' heq
        obtain ⟨rfl, rfl⟩ := Prod.mk.inj (Except.ok.inj heq)
        exact ⟨hw.apart, hw.total⟩
  · intro regionData
    obtain ⟨w, hreturns, hw⟩ := recordTurn_returns regionData
    exact ⟨w, hreturns, hw.records, hw.apart, hw.reported⟩

end FaultOracle.Bert
