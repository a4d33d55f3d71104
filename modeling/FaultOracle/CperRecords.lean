import FaultOracle.BertRecords
import FaultOracle.StructLayout

/-!
# What CPER records are read as

Records built with the offsets which `parse_cper_records` reads the header at, and with its own
`CPER_SECTION_DESC_FMT` for the section descriptors.  A concatenation of such records is read
back record by record, and section by section, but for one field: the format puts the type of
a section behind the two bytes of its length, and the reader takes it from where the length
is.

The reader also takes the end of the region, not that of the record, for the end of the
descriptors.  `records_read_back_iff` says when each of the two does no harm.
-/

namespace FaultOracle.Bert

open RecordChains StructLayout

/-! ## Records as they are built -/

/-- A section descriptor; `rest` are the fields behind the type, which nothing reads. -/
structure SectionDescriptor where
  offset : UInt32
  length : UInt16
  guid : Bytes
  rest : Bytes
  guid_length : guid.length = 16
  rest_length : rest.length = 16

/-- `struct.pack(CPER_SECTION_DESC_FMT, ...)`. -/
def SectionDescriptor.encode (d : SectionDescriptor) : Bytes :=
  leBytes 4 d.offset.toNat ++ (leBytes 2 d.length.toNat ++ (d.guid ++ d.rest))

/-- What `sections` should say of it. -/
def SectionDescriptor.entry (d : SectionDescriptor) : CperSection where
  type := (cperSectionTypes.lookup d.guid).getD "unknown"
  length := d.length.toNat
  offsetInRecord := d.offset.toNat

/-- The bytes which are taken for its type: its length, and its type but for two bytes. -/
def SectionDescriptor.guidRead (d : SectionDescriptor) : Bytes :=
  leBytes 2 d.length.toNat ++ d.guid.take 14

/-- What `sections` does say of it. -/
def SectionDescriptor.entryRead (d : SectionDescriptor) : CperSection :=
  { d.entry with type := (cperSectionTypes.lookup d.guidRead).getD "unknown" }

/-- A record: its header but for the fields that are read, its sections and its data. -/
structure WellFormedRecord where
  revision : Bytes
  severityRaw : UInt32
  headerRest : Bytes
  sections : List SectionDescriptor
  body : Bytes
  revision_length : revision.length = 14
  headerRest_length : headerRest.length = 100
  sections_length : sections.length < 2 ^ 16
  length_lt : 128 + 38 * sections.length + body.length < 2 ^ 32

namespace WellFormedRecord

variable (r : WellFormedRecord)

def recordLength : Nat := 128 + 38 * r.sections.length + r.body.length

def descriptors : Bytes := r.sections.flatMap SectionDescriptor.encode

def encode : Bytes :=
  cperMark ++ (r.revision ++ (leBytes 2 r.sections.length ++ (leBytes 4 r.recordLength ++
    (leBytes 4 r.severityRaw.toNat ++ (r.headerRest ++ (r.descriptors ++ r.body))))))

/-- What `records` should say of it. -/
def entry : CperRecord where
  severity := severity r.severityRaw.toNat
  sectionCount := r.sections.length
  recordLength := r.recordLength
  sections := r.sections.map SectionDescriptor.entry

/-- What `records` does say of it. -/
def entryRead : CperRecord :=
  { r.entry with sections := r.sections.map SectionDescriptor.entryRead }

end WellFormedRecord

/-! ## Fields -/

section Fields

variable {a b : Bytes} {n v : Nat}

/-- The little-endian number of some bytes. -/
theorem littleEndian_eq (bytes : Bytes) : littleEndian bytes = leNat bytes := by
  induction bytes with
  | nil => rfl
  | cons b bytes ih => rw [littleEndian, leNat, ih]

theorem take_drop_append (ha : a.length = n) {w : Bytes} {k : Nat} (hw : w.length = k) :
    ((a ++ (w ++ b)).drop n).take k = w := by
  rw [← ha, List.drop_left, ← hw, List.take_left]

/-- A number is read where it was written. -/
theorem uint32At_append (ha : a.length = n) (hv : v < 2 ^ 32) :
    uint32At (a ++ (leBytes 4 v ++ b)) n = v := by
  rw [uint32At, take_drop_append ha (length_leBytes 4 v), littleEndian_eq, leNat_leBytes]
  exact Nat.mod_eq_of_lt hv

theorem uint16At_append (ha : a.length = n) (hv : v < 2 ^ 16) :
    uint16At (a ++ (leBytes 2 v ++ b)) n = v := by
  rw [uint16At, take_drop_append ha (length_leBytes 2 v), littleEndian_eq, leNat_leBytes]
  exact Nat.mod_eq_of_lt hv

end Fields

/-! ## Sections -/

/-- A section descriptor is read as 38 bytes. -/
theorem sectionDescSize_eq : CPER_SECTION_DESC_SIZE = 38 := by decide

/-- A section descriptor is written in 38 bytes. -/
theorem SectionDescriptor.length_encode (d : SectionDescriptor) : d.encode.length = 38 := by
  simp [encode, d.guid_length, d.rest_length]

theorem length_descriptors (ds : List SectionDescriptor) :
    (ds.flatMap SectionDescriptor.encode).length = 38 * ds.length := by
  induction ds with
  | nil => rfl
  | cons d ds ih =>
      rw [List.flatMap_cons, List.length_append, d.length_encode, ih, List.length_cons]
      omega

/-- The type is read two bytes too early. -/
theorem SectionDescriptor.slice_guid (d : SectionDescriptor) {a : Bytes} {n : Nat}
    (ha : a.length = n) (b : Bytes) :
    slice (a ++ (d.encode ++ b)) (n + 4) (n + 4 + 16) = d.guidRead := by
  have hsplit : a ++ (d.encode ++ b) = (a ++ leBytes 4 d.offset.toNat) ++
      (d.guidRead ++ (d.guid.drop 14 ++ (d.rest ++ b))) := by
    have hguid := List.take_append_drop 14 d.guid
    simp only [encode, guidRead, List.append_assoc]
    rw [← List.append_assoc (d.guid.take 14), hguid]
  have hlength : d.guidRead.length = 16 := by simp [guidRead, d.guid_length]
  rw [slice_eq, hsplit]
  exact take_drop_append (by simp [ha]) hlength

/-- **Sections** are read in order, whatever stands before and behind them. -/
theorem cperSections_encode (ds : List SectionDescriptor) {a : Bytes} {n : Nat}
    (ha : a.length = n) (b : Bytes) :
    cperSections (a ++ (ds.flatMap SectionDescriptor.encode ++ b)) ds.length n =
      ds.map SectionDescriptor.entryRead := by
  induction ds generalizing a n with
  | nil => rfl
  | cons d ds ih =>
      have hsplit : a ++ ((d :: ds).flatMap SectionDescriptor.encode ++ b) =
          a ++ (d.encode ++ (ds.flatMap SectionDescriptor.encode ++ b)) := by
        rw [List.flatMap_cons, List.append_assoc]
      have hfits : ¬ (a ++ (d.encode ++ (ds.flatMap SectionDescriptor.encode ++ b))).length <
          n + CPER_SECTION_DESC_SIZE := by
        rw [List.length_append, List.length_append, d.length_encode, sectionDescSize_eq]
        omega
      have hoffset : uint32At (a ++ (d.encode ++ (ds.flatMap SectionDescriptor.encode ++ b))) n =
          d.offset.toNat := by
        rw [SectionDescriptor.encode, List.append_assoc (leBytes 4 _)]
        exact uint32At_append ha d.offset.toNat_lt
      have hlength : uint16At (a ++ (d.encode ++ (ds.flatMap SectionDescriptor.encode ++ b)))
          (n + 4) = d.length.toNat := by
        rw [SectionDescriptor.encode, List.append_assoc (leBytes 4 _), ← List.append_assoc a,
          List.append_assoc (leBytes 2 _)]
        exact uint16At_append (by simp [ha]) d.length.toNat_lt
      have hrest : cperSections (a ++ (d.encode ++ (ds.flatMap SectionDescriptor.encode ++ b)))
          ds.length (n + CPER_SECTION_DESC_SIZE) = ds.map SectionDescriptor.entryRead := by
        rw [← List.append_assoc]
        exact ih (by rw [List.length_append, ha, d.length_encode, sectionDescSize_eq])
      have hguid := d.slice_guid ha (ds.flatMap SectionDescriptor.encode ++ b)
      rw [Nat.add_assoc n 4 16] at hguid
      rw [hsplit, List.length_cons, cperSections, if_neg hfits, hoffset, hlength, hrest, hguid]
      rfl

/-! ## Records -/

namespace WellFormedRecord

variable (r : WellFormedRecord) (rest : Bytes)

theorem length_encode : r.encode.length = r.recordLength := by
  simp only [encode, descriptors, recordLength, List.length_append, length_leBytes,
    length_descriptors, r.revision_length, r.headerRest_length]
  show 4 + _ = _
  omega

/-- The length which a record names is its own. -/
theorem recordLength_encode : uint32At (r.encode ++ rest) 20 = r.recordLength := by
  have hsplit : r.encode ++ rest = (cperMark ++ r.revision ++ leBytes 2 r.sections.length) ++
      (leBytes 4 r.recordLength ++ (leBytes 4 r.severityRaw.toNat ++ (r.headerRest ++
        (r.descriptors ++ (r.body ++ rest))))) := by
    simp only [encode, List.append_assoc]
  rw [hsplit]
  exact uint32At_append (by simp [r.revision_length, cperMark]) r.length_lt

/-- The severity is read back from the record. -/
theorem severity_encode : uint32At (r.encode ++ rest) 24 = r.severityRaw.toNat := by
  have hsplit : r.encode ++ rest = (cperMark ++ r.revision ++ leBytes 2 r.sections.length ++
      leBytes 4 r.recordLength) ++ (leBytes 4 r.severityRaw.toNat ++ (r.headerRest ++
        (r.descriptors ++ (r.body ++ rest)))) := by
    simp only [encode, List.append_assoc]
  rw [hsplit]
  exact uint32At_append (by simp [r.revision_length, cperMark]) r.severityRaw.toNat_lt

/-- The number of sections is read back from the record. -/
theorem sectionCount_encode : uint16At (r.encode ++ rest) 18 = r.sections.length := by
  have hsplit : r.encode ++ rest = (cperMark ++ r.revision) ++ (leBytes 2 r.sections.length ++
      (leBytes 4 r.recordLength ++ (leBytes 4 r.severityRaw.toNat ++ (r.headerRest ++
        (r.descriptors ++ (r.body ++ rest)))))) := by
    simp only [encode, List.append_assoc]
  rw [hsplit]
  exact uint16At_append (by simp [r.revision_length, cperMark]) r.sections_length

/-- **A record** is read off the front of a region, but for the types of its sections. -/
theorem cperRecord_encode : cperRecord (r.encode ++ rest) 0 = r.entryRead := by
  have hsplit : r.encode ++ rest = (cperMark ++ r.revision ++ leBytes 2 r.sections.length ++
      leBytes 4 r.recordLength ++ leBytes 4 r.severityRaw.toNat ++ r.headerRest) ++
        (r.sections.flatMap SectionDescriptor.encode ++ (r.body ++ rest)) := by
    simp only [encode, descriptors, List.append_assoc]
  have hsections : cperSections (r.encode ++ rest) r.sections.length 128 =
      r.sections.map SectionDescriptor.entryRead := by
    rw [hsplit]
    exact cperSections_encode _
      (by simp [r.revision_length, r.headerRest_length, cperMark]) _
  rw [cperRecord, severity_encode, sectionCount_encode, recordLength_encode, hsections]
  rfl

/-- A record begins with its signature. -/
theorem begins_encode : cper.Begins CPER_HEADER_SIZE (r.encode ++ rest) := by
  constructor
  · rw [List.length_append, length_encode, cperHeaderSize_eq, recordLength]
    omega
  · rw [cper, decide_eq_true_eq, encode, List.append_assoc]
    rfl

/-- The walk goes on behind a record. -/
theorem chain_encode : cper.chain CPER_HEADER_SIZE cperHeaderSize_pos (r.encode ++ rest) =
    (r.encode ++ rest) :: cper.chain CPER_HEADER_SIZE cperHeaderSize_pos rest := by
  have hlength : cper.recordLength (r.encode ++ rest) = r.encode.length :=
    (r.recordLength_encode rest).trans r.length_encode.symm
  have hlong : ¬ cper.recordLength (r.encode ++ rest) < CPER_HEADER_SIZE := by
    rw [hlength, length_encode, cperHeaderSize_eq, recordLength]
    omega
  rw [chain_next (r.begins_encode rest) hlong, hlength, List.drop_left]

end WellFormedRecord

theorem chain_nil : cper.chain CPER_HEADER_SIZE cperHeaderSize_pos [] = [] :=
  chain_of_not_begins fun h => absurd h.1 (by decide)

/-- **Concatenated records** are read one by one, but for the types of their sections. -/
theorem parseCperRecords_flatMap (rs : List WellFormedRecord) :
    parseCperRecords (rs.flatMap WellFormedRecord.encode) = rs.map WellFormedRecord.entryRead := by
  rw [parseCperRecords_eq]
  induction rs with
  | nil => rw [List.flatMap_nil, chain_nil, List.map_nil, List.map_nil]
  | cons r rs ih =>
      rw [List.flatMap_cons, r.chain_encode, List.map_cons, r.cperRecord_encode, ih, List.map_cons]

/-! ## Types of sections -/

/-- The section has no type of the table, and its length does not make one of it. -/
def SectionDescriptor.Untyped (d : SectionDescriptor) : Prop :=
  cperSectionTypes.lookup d.guid = none ∧ cperSectionTypes.lookup d.guidRead = none

/-- What a lookup finds is in the table. -/
theorem mem_of_lookup {guid : Bytes} {type : String} (h : cperSectionTypes.lookup guid = some type) :
    (guid, type) ∈ cperSectionTypes :=
  (InsertionDict.mem_iff_lookup (by decide)).mpr h

/-- No known type is called unknown. -/
theorem lookup_ne_unknown {guid : Bytes} {type : String}
    (h : cperSectionTypes.lookup guid = some type) : type ≠ "unknown" := by
  have hnames : ∀ e ∈ cperSectionTypes, e.2 ≠ "unknown" := by decide
  exact hnames _ (mem_of_lookup h)

/-- No type of the table is its own beginning behind two other bytes. -/
theorem SectionDescriptor.guidRead_ne {d : SectionDescriptor} {type : String}
    (h : cperSectionTypes.lookup d.guid = some type) : d.guidRead ≠ d.guid := by
  have htable : ∀ e ∈ cperSectionTypes, e.1[2]? ≠ e.1[0]? := by decide
  intro heq
  have hthird : d.guidRead[2]? = d.guid[0]? := by
    rw [guidRead, List.getElem?_append_right (by simp), length_leBytes,
      List.getElem?_take_of_lt (by decide)]
  rw [heq] at hthird
  exact htable _ (mem_of_lookup h) hthird

/-- A section is read as it is exactly when its type is in no table. -/
theorem SectionDescriptor.entryRead_eq_iff (d : SectionDescriptor) :
    d.entryRead = d.entry ↔ d.Untyped := by
  have htypes : d.entryRead = d.entry ↔
      (cperSectionTypes.lookup d.guidRead).getD "unknown" =
        (cperSectionTypes.lookup d.guid).getD "unknown" := by
    rw [entryRead, entry, CperSection.mk.injEq]
    simp
  have hsame : ∀ e ∈ cperSectionTypes, ∀ e' ∈ cperSectionTypes, e.2 = e'.2 → e.1 = e'.1 := by
    decide
  rw [htypes, Untyped]
  cases hread : cperSectionTypes.lookup d.guidRead with
  | none =>
      cases hown : cperSectionTypes.lookup d.guid with
      | none => simp
      | some type => simpa using (lookup_ne_unknown hown).symm
  | some type =>
      cases hown : cperSectionTypes.lookup d.guid with
      | none => simpa using lookup_ne_unknown hread
      | some type' =>
          refine iff_of_false ?_ (by simp)
          intro heq
          exact d.guidRead_ne hown (hsame _ (mem_of_lookup hread) _ (mem_of_lookup hown) heq)

/-- A record is read as it is exactly when the types of its sections are in no table. -/
theorem WellFormedRecord.entryRead_eq_iff (r : WellFormedRecord) :
    r.entryRead = r.entry ↔ ∀ d ∈ r.sections, d.Untyped := by
  have hsections : r.entryRead = r.entry ↔ r.sections.map SectionDescriptor.entryRead =
      r.sections.map SectionDescriptor.entry := by
    rw [entryRead, entry, CperRecord.mk.injEq]
    simp
  rw [hsections, List.map_inj_left]
  exact forall₂_congr fun d _ => d.entryRead_eq_iff

/-! ## Descriptors -/

theorem length_cperSections (regionData : Bytes) (count descOffset : Nat) :
    (cperSections regionData count descOffset).length =
      min count ((regionData.length - descOffset) / CPER_SECTION_DESC_SIZE) := by
  rw [sectionDescSize_eq]
  induction count generalizing descOffset with
  | zero => simp [cperSections]
  | succ count ih =>
      rw [cperSections, sectionDescSize_eq]
      split
      · rw [List.length_nil]
        omega
      · rw [List.length_cons, ih]
        omega

/-- Where the descriptors are that are read for the record which a region begins with. -/
def descriptorsRead (r : Bytes) : List Nat :=
  (List.range (cperRecord r 0).sections.length).map fun i => 128 + CPER_SECTION_DESC_SIZE * i

/-- No descriptor which is read for a record of the region reaches beyond the length the record
names. -/
def KeepsToRecords (regionData : Bytes) : Prop :=
  ∀ r ∈ cper.chain CPER_HEADER_SIZE cperHeaderSize_pos regionData, ∀ d ∈ descriptorsRead r,
    d + CPER_SECTION_DESC_SIZE ≤ (cperRecord r 0).recordLength

/-- As many descriptors as a record counts, or as the region has room for, fit into the length
the record names, unless there are none. -/
def RoomForCounts (regionData : Bytes) : Prop :=
  ∀ r ∈ cper.chain CPER_HEADER_SIZE cperHeaderSize_pos regionData,
    let count := min (uint16At r 18) ((r.length - 128) / CPER_SECTION_DESC_SIZE)
    count = 0 ∨ 128 + CPER_SECTION_DESC_SIZE * count ≤ uint32At r 20

/-- The walk keeps to the records exactly when every count has room. -/
theorem keepsToRecords_iff (regionData : Bytes) :
    KeepsToRecords regionData ↔ RoomForCounts regionData := by
  refine forall₂_congr fun r _ => ?_
  have hcount : (cperRecord r 0).sections.length =
      min (uint16At r 18) ((r.length - 128) / CPER_SECTION_DESC_SIZE) :=
    length_cperSections r (uint16At r 18) 128
  have hrecord : (cperRecord r 0).recordLength = uint32At r 20 := rfl
  rw [hrecord, descriptorsRead, hcount, List.forall_mem_map, sectionDescSize_eq]
  simp only [List.mem_range]
  generalize min (uint16At r 18) ((r.length - 128) / 38) = count
  constructor
  · intro h
    by_cases hzero : count = 0
    · exact Or.inl hzero
    · have hlast := h (count - 1) (by omega)
      exact Or.inr (by omega)
  · intro h i hi
    omega

/-- **Reading back.**  Concatenated records are listed as they were built exactly when no
section has, or is read to have, a type of the table; and no descriptor is read beyond its
record exactly when the counts of the records leave no room for that. -/
theorem records_read_back_iff (rs : List WellFormedRecord) (regionData : Bytes) :
    (parseCperRecords (rs.flatMap WellFormedRecord.encode) = rs.map WellFormedRecord.entry ↔
      ∀ r ∈ rs, ∀ d ∈ r.sections, d.Untyped) ∧
    (KeepsToRecords regionData ↔ RoomForCounts regionData) := by
  refine ⟨?_, keepsToRecords_iff regionData⟩
  rw [parseCperRecords_flatMap, List.map_inj_left]
  exact forall₂_congr fun r _ => r.entryRead_eq_iff

/-- A record with one section, about memory. -/
def memoryRecord : WellFormedRecord where
  revision := List.replicate 14 0
  severityRaw := 2
  headerRest := List.replicate 100 0
  sections :=
    [{ offset := 166
       length := 80
       guid := [0x1c, 0x15, 0x10, 0x2f, 0x5c, 0xda, 0x4f, 0x43, 0xb1, 0x8a, 0xdc, 0xa4, 0xa3,
         0xf9, 0x36, 0x0e]
       rest := List.replicate 16 0
       guid_length := rfl
       rest_length := rfl }]
  body := List.replicate 80 0
  revision_length := rfl
  headerRest_length := rfl
  sections_length := by decide
  length_lt := by decide

/-- A record which counts a section and has none. -/
def emptyRecord : Bytes :=
  cperMark ++ List.replicate 14 0 ++ [1, 0] ++ [128, 0, 0, 0] ++ [2, 0, 0, 0] ++
    List.replicate 100 0

/-- The section about memory is of no known type, and a section of the empty record is read out
of the record behind it. -/
theorem memory_section_unknown :
    parseCperRecords ([memoryRecord].flatMap WellFormedRecord.encode) ≠
        [memoryRecord].map WellFormedRecord.entry ∧
      ¬ KeepsToRecords (emptyRecord ++ emptyRecord) := by
  constructor
  · rw [parseCperRecords_flatMap]
    decide
  · rw [keepsToRecords_iff]
    intro h
    have hbegins : cper.Begins CPER_HEADER_SIZE (emptyRecord ++ emptyRecord) := by decide +kernel
    have hlong : ¬ cper.recordLength (emptyRecord ++ emptyRecord) < CPER_HEADER_SIZE := by
      decide +kernel
    have hfirst := h (emptyRecord ++ emptyRecord) (by
      rw [chain_next hbegins hlong]
      exact List.mem_cons_self)
    revert hfirst
    decide +kernel

end FaultOracle.Bert
