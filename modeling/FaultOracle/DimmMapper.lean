import FaultOracle.DmiStructures

/-!
# The DIMM table

`DIMMMapper.Load` of `exporter/collectors/dimm.go` takes the DIMMs from a cached output of
dmidecode, or else from the raw entries in sysfs; `MapEDACLocation` looks a location up in
the table.

`Load` falls back on sysfs when parsing the cache fails.  The parser has by then put the
records it had closed, and the open one, into the table of the mapper, and the entries of
sysfs go behind them.  Where it does not fail, the table has an entry for each `Handle` line,
also for those which head no memory device.  What should be in the table is read off the
source, and not off the parser: the memory devices among the blocks of the cache
(`cacheDimms`), or what the decoder makes of the raw entries (`sysfsDimms`).
`loads_exactly_iff` says when that is what is there.

`MapEDACLocation` returns the first entry of a location.  An entry has its location from the
numbers that its texts spell under one of three patterns (`spelled`), and what else the texts
say is dropped: `finds_each_iff`.
-/

namespace FaultOracle.Dimm

open GoStrings
open PythonFloats (natText)
open Ebpf (GoSlice GoPanic Port)

/-! ## Loading -/

/-- How Go reads the bytes of a string as characters: a byte that begins none is U+FFFD.
Every turn takes a byte at least. -/
def runes : Nat → Bytes → Text
  | 0, _ => []
  | _ + 1, [] => []
  | turns + 1, b :: rest =>
      match (b :: rest).toByteArray.utf8DecodeChar? 0 with
      | some c => c :: runes turns ((b :: rest).drop c.utf8Size)
      | none => '\uFFFD' :: runes turns rest

def goText (s : Bytes) : Text := runes s.length s

/-- A record with its strings as texts. -/
def DIMMInfo.toText (d : DIMMInfo Bytes) : DIMMInfo Text :=
  { d with
    locator := goText d.locator
    bankLocator := goText d.bankLocator
    manufacturer := goText d.manufacturer
    serialNumber := goText d.serialNumber
    partNumber := goText d.partNumber }

/-- What the loop over the raw entries does with the data of one, if it can be read. -/
def addEntry (port : Port) (dimms : List (DIMMInfo Text)) (data : Option GoSlice) :
    Except GoPanic (List (DIMMInfo Text)) :=
  match data with
  | none => .ok dimms
  | some data =>
      match parseSMBIOSType17 data with
      | .error panic => .error panic
      | .ok (.error _) => .ok dimms
      | .ok (.ok info) => .ok (dimms ++ [inferEDACLocation port info.toText])

/-- `loadFromSysfs`, on the raw entries that `17-*/raw` matches.  It returns an error where
there are none, but `Load` only logs it. -/
def loadFromSysfs (port : Port) (dimms : List (DIMMInfo Text)) (files : List (Option GoSlice)) :
    Except GoPanic (List (DIMMInfo Text)) :=
  files.foldlM (addEntry port) dimms

/-- `DIMMMapper.Load` on a fresh mapper, with the cache if it can be opened: the table that
it leaves. -/
def load (port : Port) (cache : Option Reader) (files : List (Option GoSlice)) :
    Except GoPanic (List (DIMMInfo Text)) :=
  match cache with
  | none => loadFromSysfs port [] files
  | some f =>
      let (dimms, parseErr) := parseDMIDecodeOutput port [] f
      if parseErr then loadFromSysfs port dimms files else .ok dimms

/-! ## The DIMMs of a source -/

/-- A part of the cache: the handle of a `Handle` line, and the lines up to the next such
line. -/
structure Block where
  handle : UInt16
  lines : List Text

def blocks : List Text → List Block
  | [] => []
  | line :: lines =>
      match handleOf line with
      | some handle => ⟨handle, lines.takeWhile fun l => handleOf l = none⟩ :: blocks lines
      | none => blocks lines

/-- The line below the `Handle` line is the title of a memory device. -/
def Block.MemoryDevice (b : Block) : Prop :=
  b.lines.head?.map trimSpace = some "Memory Device".toList

instance (b : Block) : Decidable b.MemoryDevice := inferInstanceAs (Decidable (_ = _))

/-- The DIMM that the lines below the title describe. -/
def Block.dimm (port : Port) (b : Block) : DIMMInfo Text :=
  inferEDACLocation port (b.lines.tail.foldl (fun d line => readLine line d) (opened b.handle))

/-- The blocks of a text. -/
def cacheBlocks (text : Text) : List Block := blocks ((rawLines text).map dropCR)

/-- The DIMMs of a cache: its memory devices, in their order. -/
def cacheDimms (port : Port) (text : Text) : List (DIMMInfo Text) :=
  ((cacheBlocks text).filter fun b => b.MemoryDevice).map (Block.dimm port)

/-- The DIMM of a raw entry, if it can be read and decoded. -/
def decodeEntry (port : Port) (data : Option GoSlice) :
    Except GoPanic (Option (DIMMInfo Text)) :=
  match data with
  | none => .ok none
  | some data =>
      match parseSMBIOSType17 data with
      | .error panic => .error panic
      | .ok (.error _) => .ok none
      | .ok (.ok info) => .ok (some (inferEDACLocation port info.toText))

/-- The DIMMs that sysfs yields. -/
def sysfsDimms (port : Port) : List (Option GoSlice) → Except GoPanic (List (DIMMInfo Text))
  | [] => .ok []
  | data :: files =>
      match decodeEntry port data with
      | .error panic => .error panic
      | .ok dimm => (dimm.toList ++ ·) <$> sysfsDimms port files

/-- The whole text was scanned and reading did not fail. -/
def Reader.Scans (r : Reader) : Prop := (scanLines r.text).tooLong = false ∧ r.fails = false

instance (r : Reader) : Decidable r.Scans := inferInstanceAs (Decidable (_ ∧ _))

/-- The DIMMs of the cache, or where it is absent or parsing it fails, those of sysfs. -/
def sourceDimms (port : Port) (cache : Option Reader) (files : List (Option GoSlice)) :
    Except GoPanic (List (DIMMInfo Text)) :=
  match cache with
  | none => sysfsDimms port files
  | some f => if f.Scans then .ok (cacheDimms port f.text) else sysfsDimms port files

/-- A table has the DIMMs of a source, no other entry, and none of them twice. -/
structure Lists (table dimms : List (DIMMInfo Text)) : Prop where
  exactly : table = dimms
  once : (dimms.map DIMMInfo.handle).Nodup → (table.map DIMMInfo.handle).Nodup

theorem Lists.refl (dimms : List (DIMMInfo Text)) : Lists dimms dimms := ⟨rfl, fun h => h⟩

/-- `Load` leaves a table, and it lists the DIMMs of the source. -/
def LoadsExactly (port : Port) (cache : Option Reader) (files : List (Option GoSlice)) : Prop :=
  ∃ table dimms, load port cache files = .ok table ∧ sourceDimms port cache files = .ok dimms ∧
    Lists table dimms

/-! ## What the parser makes of the blocks -/

/-- The entry that the parser makes of a block. -/
def Block.entry (port : Port) (b : Block) : DIMMInfo Text :=
  inferEDACLocation port (b.lines.foldl recordLine (opened b.handle, false)).1

/-- With a record open, the lines up to the next `Handle` line are its own. -/
theorem closed_open (port : Port) (lines : List Text) (r : DIMMInfo Text × Bool)
    (dimms : List (DIMMInfo Text)) :
    (lines.foldl (parseLine port) ⟨some r.1, r.2, dimms⟩).closed port =
      dimms ++ [inferEDACLocation port
        ((lines.takeWhile fun l => handleOf l = none).foldl recordLine r).1] ++
          (blocks lines).map (Block.entry port) := by
  induction lines generalizing r dimms with
  | nil => rw [blocks, List.map_nil, List.append_nil]; rfl
  | cons line lines ih =>
      rw [List.foldl_cons, blocks]
      cases hline : handleOf line with
      | some handle =>
          rw [parseLine_handle port hline, ih (opened handle, false),
            List.takeWhile_cons_of_neg (by simp [hline])]
          simp only [Parser.closed, List.map_cons, List.append_assoc]
          rfl
      | none =>
          rw [parseLine_plain port hline, ih, List.takeWhile_cons_of_pos (by simp [hline])]
          rfl

/-- **The parser** adds an entry for each block, whatever its title. -/
theorem closed_blocks (port : Port) (lines : List Text) {s : Parser} (hs : s.cur = none) :
    (lines.foldl (parseLine port) s).closed port =
      s.dimms ++ (blocks lines).map (Block.entry port) := by
  induction lines generalizing s with
  | nil => simp [Parser.closed, hs, blocks]
  | cons line lines ih =>
      rw [List.foldl_cons, blocks]
      cases hline : handleOf line with
      | some handle =>
          rw [parseLine_handle port hline, closed_open port lines (opened handle, false)]
          simp [Parser.closed, hs, Block.entry]
      | none =>
          obtain ⟨hcur, hdimms⟩ := parseLine_closed port hline hs
          rw [ih hcur, hdimms]

/-- The parser gives one entry for each block of the lines read. -/
theorem parsed_eq_blocks (port : Port) (r : Reader) :
    (parseDMIDecodeOutput port [] r).1 =
      (blocks (scanLines r.text).lines).map (Block.entry port) :=
  (dimms_flush port _).trans (closed_blocks port _ rfl)

/-- The entry of a memory device is its DIMM. -/
theorem entry_memoryDevice (port : Port) {b : Block} (h : b.MemoryDevice) :
    b.entry port = b.dimm port := by
  obtain ⟨handle, lines⟩ := b
  cases lines with
  | nil => cases h
  | cons title lines =>
      have htitle : trimSpace title = "Memory Device".toList := Option.some.inj h
      rw [Block.entry, Block.dimm, List.foldl_cons, recordLine, if_pos htitle,
        foldl_recordLine_inside]
      rfl

/-- A text that is scanned to its end is scanned whole. -/
theorem blocks_of_scans {r : Reader} (h : r.Scans) :
    blocks (scanLines r.text).lines = cacheBlocks r.text := by
  have hall : ∀ line ∈ rawLines r.text, fitsBuffer line = true := by
    have hnone : ((rawLines r.text).any fun line => !fitsBuffer line) = false := h.1
    simpa using hnone
  rw [cacheBlocks, scanLines, List.takeWhile_eq_self_iff.mpr hall]

/-- **A cache that parses** gives its DIMMs exactly when all its blocks are memory devices. -/
theorem parsed_eq_cacheDimms_iff (port : Port) {r : Reader} (h : r.Scans) :
    (parseDMIDecodeOutput port [] r).1 = cacheDimms port r.text ↔
      ∀ b ∈ cacheBlocks r.text, b.MemoryDevice := by
  rw [parsed_eq_blocks, blocks_of_scans h, cacheDimms]
  constructor
  · intro hsame
    have hlength := congrArg List.length hsame
    rw [List.length_map, List.length_map] at hlength
    have hall := List.length_filter_eq_length_iff.mp hlength.symm
    exact fun b hb => by simpa using hall b hb
  · intro hdevices
    rw [List.filter_eq_self.mpr fun b hb => by simpa using hdevices b hb]
    exact List.map_congr_left fun b hb => entry_memoryDevice port (hdevices b hb)

/-- There is no block exactly when no line is a handle. -/
theorem blocks_eq_nil_iff {lines : List Text} :
    blocks lines = [] ↔ ∀ line ∈ lines, handleOf line = none := by
  induction lines with
  | nil => simp [blocks]
  | cons line lines ih =>
      rw [blocks, List.forall_mem_cons]
      cases hline : handleOf line with
      | some handle => simp
      | none => simpa using ih

/-- **What is left** in the table: nothing, if no `Handle` line was read. -/
theorem parsed_eq_nil_iff (port : Port) (r : Reader) :
    (parseDMIDecodeOutput port [] r).1 = [] ↔
      ∀ line ∈ (scanLines r.text).lines, handleOf line = none := by
  rw [parsed_eq_blocks, List.map_eq_nil_iff, blocks_eq_nil_iff]

/-! ## Blocks and structures -/

/-- The lines of structures begin with a `Handle` line. -/
theorem takeWhile_structures (ss : List DmiStructure) :
    ((ss.flatMap DmiStructure.lines).map dropCR).takeWhile (fun l => handleOf l = none) = [] := by
  cases ss with
  | nil => rfl
  | cons s ss =>
      have hhandle : handleOf (dropCR (handleLine s)) = some s.handle := handleOf_handleLine s
      rw [List.flatMap_cons, DmiStructure.lines, List.cons_append, List.map_cons,
        List.takeWhile_cons_of_neg (by simp [hhandle])]

/-- Lines before the first handle belong to no block. -/
theorem blocks_plain {lines : List Text} (h : ∀ line ∈ lines, handleOf line = none)
    (rest : List Text) : blocks (lines ++ rest) = blocks rest := by
  induction lines with
  | nil => rfl
  | cons line lines ih =>
      rw [List.cons_append, blocks, h line List.mem_cons_self]
      exact ih fun l hl => h l (List.mem_cons_of_mem _ hl)

/-- The blocks of an output are its structures. -/
theorem blocks_structures (ss : List DmiStructure) :
    blocks ((ss.flatMap DmiStructure.lines).map dropCR) =
      ss.map fun s => ⟨s.handle, (s.title :: s.body).map dropCR⟩ := by
  induction ss with
  | nil => rfl
  | cons s ss ih =>
      have hhandle : handleOf (dropCR (handleLine s)) = some s.handle := handleOf_handleLine s
      have hplain : ∀ line ∈ (s.title :: s.body).map dropCR, handleOf line = none := by
        intro line hline
        obtain ⟨l, hl, rfl⟩ := List.mem_map.mp hline
        exact (s.plain l hl).2
      have hwhole : ((s.title :: s.body).map dropCR).takeWhile (fun l => handleOf l = none) =
          (s.title :: s.body).map dropCR := List.takeWhile_eq_self_iff.mpr (by simpa using hplain)
      rw [List.flatMap_cons, List.map_append, DmiStructure.lines, List.map_cons,
        List.cons_append, blocks, hhandle]
      simp only
      rw [blocks_plain hplain, ih, List.takeWhile_append_of_pos (by simpa using hplain),
        takeWhile_structures, List.append_nil]
      rfl

/-- **The DIMMs of an output** of dmidecode are those of its structures of type 17. -/
theorem cacheDimms_text (port : Port) (o : DmiOutput) :
    cacheDimms port o.text =
      (o.structures.filter fun s => s.dmiType = 17).map (dimmOf port) := by
  have hpreamble : ∀ line ∈ o.preamble.map dropCR, handleOf line = none := by
    intro line hline
    obtain ⟨l, hl, rfl⟩ := List.mem_map.mp hline
    exact (o.plain l hl).2
  have htitle : ∀ s : DmiStructure,
      Block.MemoryDevice ⟨s.handle, (s.title :: s.body).map dropCR⟩ ↔ s.dmiType = 17 := by
    intro s
    rw [← s.title_iff, Block.MemoryDevice]
    simp
  rw [cacheDimms, cacheBlocks, DmiOutput.text, rawLines_flatMap (newline_not_mem_lines o),
    DmiOutput.lines, List.map_append, blocks_plain hpreamble, blocks_structures,
    List.filter_map, List.map_map]
  congr 1
  exact List.filter_congr fun s _ => by simp only [Function.comp, htitle]

/-! ## Raw entries -/

/-- A raw entry on which the decoder panics. -/
def Panics (data : GoSlice) : Prop := ∃ panic, parseSMBIOSType17 data = .error panic

/-- The entry of a file is added where its type 17 structure gives one. -/
theorem addEntry_eq (port : Port) (dimms : List (DIMMInfo Text)) (data : Option GoSlice) :
    addEntry port dimms data = (fun dimm => dimms ++ dimm.toList) <$> decodeEntry port data := by
  cases data with
  | none => exact congrArg Except.ok (List.append_nil dimms).symm
  | some data =>
      rw [addEntry, decodeEntry]
      rcases parseSMBIOSType17 data with panic | err | info
      · rfl
      · exact congrArg Except.ok (List.append_nil dimms).symm
      · rfl

/-- The entries of sysfs go behind what the table holds. -/
theorem loadFromSysfs_eq (port : Port) (front : List (DIMMInfo Text))
    (files : List (Option GoSlice)) :
    loadFromSysfs port front files = (front ++ ·) <$> sysfsDimms port files := by
  induction files generalizing front with
  | nil => exact congrArg Except.ok (List.append_nil front).symm
  | cons data files ih =>
      rw [loadFromSysfs, List.foldlM_cons, addEntry_eq, sysfsDimms]
      cases decodeEntry port data with
      | error panic => rfl
      | ok dimm =>
          refine (ih (front ++ dimm.toList)).trans ?_
          simp only [Functor.map_map, List.append_assoc]

/-- An entry is decoded without a panic exactly when its data do not run short. -/
theorem decodeEntry_ok_iff (port : Port) (data : Option GoSlice) :
    (∃ dimm, decodeEntry port data = .ok dimm) ↔ ∀ d ∈ data, ¬ Panics d := by
  cases data with
  | none => simp [decodeEntry]
  | some data =>
      simp only [Option.mem_some_iff, forall_eq', Panics, decodeEntry]
      rcases parseSMBIOSType17 data with panic | err | info <;> simp

/-- Sysfs yields its DIMMs unless the decoder panics on an entry that can be read. -/
theorem sysfsDimms_ok_iff (port : Port) (files : List (Option GoSlice)) :
    (∃ dimms, sysfsDimms port files = .ok dimms) ↔
      ∀ data, some data ∈ files → ¬ Panics data := by
  induction files with
  | nil => exact ⟨fun _ _ h => absurd h List.not_mem_nil, fun _ => ⟨[], rfl⟩⟩
  | cons data files ih =>
      have hone := decodeEntry_ok_iff port data
      simp only [List.mem_cons, or_imp, forall_and, ← ih, sysfsDimms]
      have hhere : (∀ d, some d = data → ¬ Panics d) ↔ ∃ dimm, decodeEntry port data = .ok dimm :=
        (forall_congr' fun d => by rw [eq_comm]; rfl).trans hone.symm
      rw [hhere]
      cases decodeEntry port data with
      | error panic => simp
      | ok dimm => cases sysfsDimms port files <;> simp [Functor.map, Except.map]

/-! ## The loaded table -/

/-- The cache parses, and all its blocks are memory devices; or it is absent or fails before
its first `Handle` line, and the decoder panics on no raw entry. -/
def CleanSource (cache : Option Reader) (files : List (Option GoSlice)) : Prop :=
  (∃ f ∈ cache, f.Scans ∧ ∀ b ∈ cacheBlocks f.text, b.MemoryDevice) ∨
    (∀ f ∈ cache, ¬ f.Scans ∧ ∀ line ∈ (scanLines f.text).lines, handleOf line = none) ∧
      ∀ data, some data ∈ files → ¬ Panics data

/-- The parser reports an error exactly when the scanner gives up on the text. -/
theorem parseErr_iff (port : Port) (dimms : List (DIMMInfo Text)) (r : Reader) :
    (parseDMIDecodeOutput port dimms r).2 = false ↔ r.Scans := Bool.or_eq_false_iff

/-- The fallback behind what a failed parse has left. -/
theorem fallback_iff (port : Port) (front : List (DIMMInfo Text))
    (files : List (Option GoSlice)) :
    (∃ table dimms, loadFromSysfs port front files = .ok table ∧
        sysfsDimms port files = .ok dimms ∧ Lists table dimms) ↔
      front = [] ∧ ∀ data, some data ∈ files → ¬ Panics data := by
  rw [← sysfsDimms_ok_iff port files, loadFromSysfs_eq]
  constructor
  · rintro ⟨table, dimms, hload, hsource, hlists⟩
    rw [hsource] at hload
    obtain rfl := Except.ok.inj hload
    exact ⟨List.append_left_eq_self.mp hlists.exactly, dimms, hsource⟩
  · rintro ⟨rfl, dimms, hsource⟩
    exact ⟨dimms, dimms, by rw [hsource]; rfl, hsource, .refl dimms⟩

/-- A cache which cannot be scanned leaves its entries in front of those from sysfs. -/
theorem load_failed {port : Port} {f : Reader} (hfails : ¬ f.Scans)
    (files : List (Option GoSlice)) :
    load port (some f) files = loadFromSysfs port (parseDMIDecodeOutput port [] f).1 files :=
  if_pos (Bool.eq_true_of_not_eq_false (mt (parseErr_iff port [] f).mp hfails))

/-- A cache which is scanned to its end is the whole table. -/
theorem load_parsed {port : Port} {f : Reader} (hscans : f.Scans) (files : List (Option GoSlice)) :
    load port (some f) files = .ok (parseDMIDecodeOutput port [] f).1 :=
  if_neg (Bool.eq_false_iff.mp ((parseErr_iff port [] f).mpr hscans))

/-- **Loading.**  `Load` leaves the DIMMs of the source and no other entry, if and only if the
source is clean. -/
theorem loads_exactly_iff (port : Port) (cache : Option Reader)
    (files : List (Option GoSlice)) :
    LoadsExactly port cache files ↔ CleanSource cache files := by
  unfold LoadsExactly CleanSource
  cases cache with
  | none => simpa [load, sourceDimms] using fallback_iff port [] files
  | some f =>
      by_cases hscans : f.Scans
      · rw [load_parsed hscans, sourceDimms, if_pos hscans]
        have hiff := parsed_eq_cacheDimms_iff port hscans
        constructor
        · rintro ⟨table, dimms, hload, hsource, hlists⟩
          refine .inl ⟨f, rfl, hscans, hiff.mp ?_⟩
          rw [Except.ok.inj hload, Except.ok.inj hsource, hlists.exactly]
        · rintro (⟨g, hg, -, hdevices⟩ | ⟨hnot, -⟩)
          · obtain rfl := Option.some.inj hg
            exact ⟨_, _, rfl, rfl, hiff.mpr hdevices ▸ .refl _⟩
          · exact absurd hscans (hnot f rfl).1
      · have hboth := fallback_iff port (parseDMIDecodeOutput port [] f).1 files
        rw [parsed_eq_nil_iff] at hboth
        rw [load_failed hscans, sourceDimms, if_neg hscans]
        simpa [hscans] using hboth

def firstHandle : Text := "Handle 0x0011, DMI type 17, 84 bytes".toList

/-- A line that does not fit into the buffer. -/
def longLine : Text := List.replicate maxScanTokenSize 'x'

/-- A cache with a `Handle` line and an overlong line. -/
def brokenCache : Reader where
  text := [firstHandle, longLine].flatMap fun line => line ++ ['\n']
  fails := false

/-- The long line does not fit into the scanner's buffer. -/
theorem fitsBuffer_longLine : fitsBuffer longLine = false := by
  have hbyte : 'x'.utf8Size = 1 := by decide
  have hlength : byteLength longLine = maxScanTokenSize := by
    rw [byteLength, longLine, List.map_replicate, List.sum_replicate, hbyte]
    exact mul_one _
  rw [fitsBuffer, hlength]
  exact decide_eq_false (lt_irrefl _)

/-- Of the broken cache the scanner gives only the line before the long one. -/
theorem scan_brokenCache : scanLines brokenCache.text = ⟨[dropCR firstHandle], true⟩ := by
  have hfirst : '\n' ∉ firstHandle := by decide
  have hlong : '\n' ∉ longLine := by
    intro hmem
    have hsame := List.eq_of_mem_replicate hmem
    revert hsame
    decide
  have hlines : rawLines brokenCache.text = [firstHandle, longLine] :=
    rawLines_flatMap (List.forall_mem_cons.mpr ⟨hfirst, List.forall_mem_singleton.mpr hlong⟩)
  have hshort : fitsBuffer firstHandle = true := by decide
  have htaken : [firstHandle, longLine].takeWhile fitsBuffer = [firstHandle] := by
    rw [List.takeWhile_cons_of_pos hshort,
      List.takeWhile_cons_of_neg (Bool.eq_false_iff.mp fitsBuffer_longLine)]
  have hstops : ([firstHandle, longLine].any fun line => !fitsBuffer line) = true :=
    List.any_eq_true.mpr ⟨longLine, by simp, by rw [fitsBuffer_longLine]; rfl⟩
  rw [scanLines, hlines, htaken, hstops, List.map_singleton]

/-- The scanner gives up on the broken cache. -/
theorem not_scans_brokenCache : ¬ brokenCache.Scans := by
  intro ⟨hfits, _⟩
  rw [scan_brokenCache] at hfits
  cases hfits

/-- The record of the broken cache stays in the table, where nothing should be. -/
theorem broken_cache_listed :
    sourceDimms .bits64 (some brokenCache) [] = .ok [] ∧
      (∃ table, load .bits64 (some brokenCache) [] = .ok table ∧ table ≠ []) ∧
        ¬ LoadsExactly .bits64 (some brokenCache) [] := by
  have hhandle : (handleOf (dropCR firstHandle)).isSome = true := by decide +kernel
  have hleft : (parseDMIDecodeOutput .bits64 [] brokenCache).1 ≠ [] := by
    intro hnil
    have hnone := (parsed_eq_nil_iff .bits64 brokenCache).mp hnil
    rw [scan_brokenCache] at hnone
    rw [hnone _ List.mem_cons_self] at hhandle
    cases hhandle
  have hload : load .bits64 (some brokenCache) [] =
      .ok (parseDMIDecodeOutput .bits64 [] brokenCache).1 := load_failed not_scans_brokenCache []
  have hsource : sourceDimms .bits64 (some brokenCache) [] = .ok [] := by
    rw [sourceDimms, if_neg not_scans_brokenCache, sysfsDimms]
  refine ⟨hsource, ⟨_, hload, hleft⟩, ?_⟩
  rintro ⟨table, dimms, hloaded, hsourced, hlists⟩
  rw [hload] at hloaded
  rw [hsource] at hsourced
  rw [← Except.ok.inj hsourced] at hlists
  exact hleft ((Except.ok.inj hloaded).trans hlists.exactly)

/-! ## Locations -/

/-- The location that the texts of an entry spell. -/
structure Slot where
  node : Nat
  channel : Nat
  slot : Nat
deriving DecidableEq, Repr

/-- The numbers under the first of the three patterns that occurs; the third has a letter for
the channel, and no node. -/
def spelled (port : Port) (locator bankLocator : Text) : Option Slot :=
  let numbers := fun m => Slot.mk (atoi port (submatch m 1)) (atoi port (submatch m 2))
    (atoi port (submatch m 3))
  match reNodeChanSlot.search bankLocator with
  | some m => some (numbers m)
  | none =>
      match reHPE.search bankLocator with
      | some m => some (numbers m)
      | none => (reLocator.search locator).map fun m =>
          ⟨0, letterIndex (submatch m 1), atoi port (submatch m 2)⟩

/-- `DIMMMapper.MapEDACLocation`: where in the table the entry is that it points to. -/
def mapEDACLocation (dimms : List (DIMMInfo Text)) (controller : Text) (csrow channel : Int) :
    Option Nat :=
  dimms.findIdx? fun d =>
    d.edacController = controller ∧ d.edacCsrow = csrow ∧ d.edacChannel = channel

/-- `inferEDACLocation` found a location. -/
def DIMMInfo.Located (d : DIMMInfo Text) : Prop := d.edacController ≠ []

/-- Every entry with a location is itself found under it. -/
def FindsEach (table : List (DIMMInfo Text)) : Prop :=
  ∀ (i : Nat) (_ : i < table.length), table[i].Located →
    mapEDACLocation table table[i].edacController table[i].edacCsrow table[i].edacChannel = some i

/-- The location that an entry is given. -/
def placed (d : DIMMInfo Text) (s : Option Slot) : DIMMInfo Text :=
  match s with
  | some s =>
      { d with edacController := controllerName s.node, edacCsrow := s.slot, edacChannel := s.channel }
  | none => { d with edacController := [], edacCsrow := -1, edacChannel := -1 }

/-- The location comes from the first of the locator texts which spells one. -/
theorem inferEDACLocation_eq (port : Port) (d : DIMMInfo Text) :
    inferEDACLocation port d = placed d (spelled port d.locator d.bankLocator) := by
  have hzero : controllerName 0 = "mc0".toList := by decide
  unfold inferEDACLocation spelled
  cases hfirst : reNodeChanSlot.search d.bankLocator with
  | some m => simp only [hfirst]; rfl
  | none =>
      cases hsecond : reHPE.search d.bankLocator with
      | some m => simp only [hfirst, hsecond]; rfl
      | none =>
          simp only [hfirst, hsecond]
          cases reLocator.search d.locator with
          | some m => simp only [Option.map_some, placed, hzero]
          | none => rfl

theorem controllerName_inj {a b : Nat} (h : controllerName a = controllerName b) : a = b := by
  have hdigits : Nat.toDigits 10 a = Nat.toDigits 10 b := (List.cons.inj (List.cons.inj h).2).2
  have hvalue := congrArg (fun digits => Nat.ofDigitChars 10 digits 0) hdigits
  simpa using hvalue

/-- **First matches.**  Every element with `p` is the first with its key, if and only if no
element before it has the same key. -/
theorem findIdx?_key_iff {α κ : Type*} [DecidableEq κ] {key : α → κ} {p : α → Prop} {l : List α} :
    (∀ (i : Nat) (_ : i < l.length), p l[i] → l.findIdx? (fun e => key e = key l[i]) = some i) ↔
      l.Pairwise fun e d => p d → key e ≠ key d := by
  simp only [List.findIdx?_eq_some_iff_getElem, List.pairwise_iff_getElem, decide_eq_true_eq]
  constructor
  · intro h i j _ hj hij hp
    obtain ⟨_, _, hbefore⟩ := h j hj hp
    exact hbefore i hij
  · intro h i hi hp
    exact ⟨hi, trivial, fun j hji => h j i (hji.trans hi) hi hji hp⟩

/-! ## Inferred locations -/

/-- The location of an entry is the one that its texts spell. -/
def DIMMInfo.Inferred (port : Port) (d : DIMMInfo Text) : Prop :=
  d = placed d (spelled port d.locator d.bankLocator)

/-- A DIMM whose location was inferred carries the inferred location. -/
theorem inferred_inferEDACLocation (port : Port) (d : DIMMInfo Text) :
    (inferEDACLocation port d).Inferred port := by
  rw [inferEDACLocation_eq]
  unfold DIMMInfo.Inferred
  cases hspelled : spelled port d.locator d.bankLocator <;> simp only [placed, hspelled]

/-- Every entry of the parser carries its inferred location. -/
theorem inferred_parse (port : Port) (r : Reader) :
    ∀ d ∈ (parseDMIDecodeOutput port [] r).1, d.Inferred port := by
  rw [parsed_eq_blocks]
  intro d hd
  obtain ⟨b, -, rfl⟩ := List.mem_map.mp hd
  exact inferred_inferEDACLocation port _

/-- Adding a file's entry keeps that every entry carries its inferred location. -/
theorem inferred_addEntry {port : Port} {dimms table : List (DIMMInfo Text)}
    (h : ∀ d ∈ dimms, d.Inferred port) {data : Option GoSlice}
    (hadd : addEntry port dimms data = .ok table) : ∀ d ∈ table, d.Inferred port := by
  cases data with
  | none =>
      obtain rfl : dimms = table := Except.ok.inj hadd
      exact h
  | some data =>
      simp only [addEntry] at hadd
      rcases hparse : parseSMBIOSType17 data with panic | err | info
      · rw [hparse] at hadd
        cases hadd
      · rw [hparse] at hadd
        obtain rfl : dimms = table := Except.ok.inj hadd
        exact h
      · rw [hparse] at hadd
        obtain rfl : dimms ++ [inferEDACLocation port info.toText] = table := Except.ok.inj hadd
        intro d hd
        rcases List.mem_append.mp hd with hd | hd
        · exact h d hd
        · rw [List.mem_singleton.mp hd]
          exact inferred_inferEDACLocation port info.toText

/-- The walk over sysfs keeps that every entry carries its inferred location. -/
theorem inferred_loadFromSysfs {port : Port} {files : List (Option GoSlice)}
    {dimms table : List (DIMMInfo Text)} (h : ∀ d ∈ dimms, d.Inferred port)
    (hload : loadFromSysfs port dimms files = .ok table) : ∀ d ∈ table, d.Inferred port := by
  induction files generalizing dimms with
  | nil =>
      obtain rfl : dimms = table := Except.ok.inj hload
      exact h
  | cons data files ih =>
      rw [loadFromSysfs, List.foldlM_cons] at hload
      cases hadd : addEntry port dimms data with
      | error panic =>
          rw [hadd] at hload
          cases hload
      | ok dimms' =>
          rw [hadd] at hload
          exact ih (inferred_addEntry h hadd) hload

/-- **Inferred.**  A loaded table has inferred locations only. -/
theorem inferred_of_load {port : Port} {cache : Option Reader} {files : List (Option GoSlice)}
    {table : List (DIMMInfo Text)} (h : load port cache files = .ok table) :
    ∀ d ∈ table, d.Inferred port := by
  cases cache with
  | none => exact inferred_loadFromSysfs (fun d hd => absurd hd List.not_mem_nil) h
  | some f =>
      by_cases hscans : f.Scans
      · rw [load_parsed hscans files] at h
        obtain rfl := Except.ok.inj h
        exact inferred_parse port f
      · rw [load_failed hscans files] at h
        exact inferred_loadFromSysfs (inferred_parse port f) h

/-! ## Different locations -/

/-- What `MapEDACLocation` compares. -/
def DIMMInfo.location (d : DIMMInfo Text) : Text × Int × Int :=
  (d.edacController, d.edacCsrow, d.edacChannel)

/-- The lookup gives the first entry at the location asked for. -/
theorem mapEDACLocation_location (table : List (DIMMInfo Text)) (d : DIMMInfo Text) :
    mapEDACLocation table d.edacController d.edacCsrow d.edacChannel =
      table.findIdx? fun e => e.location = d.location := by
  simp only [mapEDACLocation, DIMMInfo.location, Prod.mk.injEq]

/-- A DIMM whose texts spell no location is at none. -/
theorem location_none {port : Port} {d : DIMMInfo Text} (h : d.Inferred port)
    (hspelled : spelled port d.locator d.bankLocator = none) : d.location = ([], -1, -1) := by
  unfold DIMMInfo.Inferred at h
  rw [hspelled] at h
  exact congrArg DIMMInfo.location h

/-- A DIMM whose texts spell a location is there. -/
theorem location_some {port : Port} {d : DIMMInfo Text} (h : d.Inferred port) {s : Slot}
    (hspelled : spelled port d.locator d.bankLocator = some s) :
    d.location = (controllerName s.node, (s.slot : Int), (s.channel : Int)) := by
  unfold DIMMInfo.Inferred at h
  rw [hspelled] at h
  exact congrArg DIMMInfo.location h

/-- Another entry is where a located one is, only if both spell the same numbers. -/
theorem location_ne_iff {port : Port} {d d' : DIMMInfo Text} (h : d.Inferred port)
    (h' : d'.Inferred port) :
    (d'.Located → d.location ≠ d'.location) ↔
      ∀ s, spelled port d.locator d.bankLocator = some s →
        spelled port d'.locator d'.bankLocator ≠ some s := by
  cases hs' : spelled port d'.locator d'.bankLocator with
  | none =>
      have hnowhere : ¬ d'.Located := not_not_intro (congrArg Prod.fst (location_none h' hs'))
      simp [hnowhere]
  | some s' =>
      have hplace' := location_some h' hs'
      have hlocated : d'.Located := by
        intro hempty
        have hname : controllerName s'.node = [] := (congrArg Prod.fst hplace').symm.trans hempty
        cases hname
      cases hs : spelled port d.locator d.bankLocator with
      | none =>
          have hname : ([] : Text) ≠ controllerName s'.node := (List.cons_ne_nil _ _).symm
          simp [hlocated, location_none h hs, hplace', hname]
      | some s =>
          rw [location_some h hs, hplace']
          constructor
          · intro hdiffers t ht ht'
            obtain rfl := Option.some.inj ht
            obtain rfl := Option.some.inj ht'
            exact hdiffers hlocated rfl
          · intro hdiffers _ hsame
            have hnode := controllerName_inj (congrArg Prod.fst hsame)
            have hslot : (s.slot : Int) = s'.slot := congrArg (fun p => p.2.1) hsame
            have hchannel : (s.channel : Int) = s'.channel := congrArg (fun p => p.2.2) hsame
            apply hdiffers s rfl
            obtain ⟨node, channel, slot⟩ := s
            obtain ⟨node', channel', slot'⟩ := s'
            simp only at hnode hslot hchannel
            rw [hnode, Int.ofNat.inj hslot, Int.ofNat.inj hchannel]

/-- A memory device with a bank locator, as lines of the cache. -/
def banked (bankLocator : Text) : List Text :=
  ["Handle 0x0011, DMI type 17, 84 bytes".toList, "Memory Device".toList,
    "\tBank Locator: ".toList ++ bankLocator]

/-- A cache with two memory devices. -/
def twoBanks (bankLocator bankLocator' : Text) : Reader where
  text := (banked bankLocator ++ banked bankLocator').flatMap fun line => line ++ ['\n']
  fails := false

/-- **Looking locations up.**  In a loaded table, every entry with a location is found under
it, if and only if no two of them spell the same numbers. -/
theorem finds_each_iff {port : Port} {cache : Option Reader} {files : List (Option GoSlice)}
    {table : List (DIMMInfo Text)} (hload : load port cache files = .ok table) :
    FindsEach table ↔
      table.Pairwise fun d d' => ∀ s, spelled port d.locator d.bankLocator = some s →
        spelled port d'.locator d'.bankLocator ≠ some s := by
  have hinferred := inferred_of_load hload
  unfold FindsEach
  simp only [mapEDACLocation_location]
  rw [findIdx?_key_iff]
  exact List.Pairwise.iff_of_mem fun hd hd' => location_ne_iff (hinferred _ hd) (hinferred _ hd')

/-- On a board of two nodes the lookup finds each DIMM. -/
theorem two_nodes_found :
    FindsEach (parseDMIDecodeOutput .bits64 []
      (twoBanks "Node0_Channel0_Dimm0".toList "Node1_Channel0_Dimm0".toList)).1 := by
  have hscans : (twoBanks "Node0_Channel0_Dimm0".toList "Node1_Channel0_Dimm0".toList).Scans := by
    decide +kernel
  have hspelled : (parseDMIDecodeOutput .bits64 []
      (twoBanks "Node0_Channel0_Dimm0".toList "Node1_Channel0_Dimm0".toList)).1.Pairwise
        fun d d' => spelled .bits64 d.locator d.bankLocator ≠
          spelled .bits64 d'.locator d'.bankLocator := by
    decide +kernel
  refine (finds_each_iff (load_parsed hscans [])).mpr ?_
  exact hspelled.imp fun hdiffers s hs hs' => hdiffers (hs.trans hs'.symm)

/-- Two sockets, one location: the DIMM of the second is never found. -/
theorem second_socket_lost :
    ∃ table, load .bits64
        (some (twoBanks "P0_Node0_Channel0_Dimm0".toList "P1_Node0_Channel0_Dimm0".toList)) [] =
          .ok table ∧
      (table.Pairwise fun d d' =>
        (d.locator, d.bankLocator) ≠ (d'.locator, d'.bankLocator)) ∧
      ¬ FindsEach table := by
  have hscans : (twoBanks "P0_Node0_Channel0_Dimm0".toList
      "P1_Node0_Channel0_Dimm0".toList).Scans := by
    decide +kernel
  refine ⟨_, load_parsed hscans [], by decide +kernel, ?_⟩
  generalize htable : (parseDMIDecodeOutput .bits64 []
    (twoBanks "P0_Node0_Channel0_Dimm0".toList "P1_Node0_Channel0_Dimm0".toList)).1 = table
  have hplaces : table.map DIMMInfo.location = [("mc0".toList, 0, 0), ("mc0".toList, 0, 0)] := by
    rw [← htable]
    decide +kernel
  intro hfinds
  match table, hplaces with
  | [d, d'], hplaces =>
      obtain ⟨hd, hd'⟩ : d.location = ("mc0".toList, 0, 0) ∧ d'.location = ("mc0".toList, 0, 0) := by
        simpa only [List.map_cons, List.map_nil, List.cons.injEq, and_true] using hplaces
      have hlocated : d'.Located := by
        intro hempty
        have hname : "mc0".toList = [] := (congrArg Prod.fst hd').symm.trans hempty
        cases hname
      have hsecond : mapEDACLocation [d, d'] d'.edacController d'.edacCsrow d'.edacChannel =
          some 1 := hfinds 1 (by simp) hlocated
      rw [mapEDACLocation_location, List.findIdx?_cons, hd, hd', decide_eq_true rfl] at hsecond
      cases hsecond

end FaultOracle.Dimm
