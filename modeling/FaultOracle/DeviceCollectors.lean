import FaultOracle.ScrapeUniqueness

/-!
# The PMU, cache and DIMM collectors

`exporter/collectors/pmu.go`, `cache_parity.go` and the collector of `dimm.go` label their
samples by the family of a device, by a part of a device name, and by strings which the
firmware supplies.  Nothing makes these differ from device to device, and `scrape_distinct_iff`
says exactly when a scrape sends a series twice.
-/

namespace FaultOracle.Exporter

open BacktrackingRegex GoStrings PythonFloats

/-! ## The PMU collector -/

/-- `pmuType`, of the devices which have one. -/
def pmuType (name : Text) : Option Text :=
  if "arm_cmn".toList.isPrefixOf name then some "arm_cmn".toList
  else if "arm_dsu".toList.isPrefixOf name then some "arm_dsu".toList
  else none

/-- The counter in a file, if there is one. -/
def counterIfRead (fs : FileSystem) (path : Path) (name : String) (labels : List Text) : Scrape :=
  match readUint64 fs path with
  | none => .nothing
  | some n => .counter name labels n

/-- A file below `events` of a PMU device. -/
def pmuFile (pmuRoot : Path) (e : DirEntry) (file : String) : Path :=
  below (pmuRoot ++ [e.name]) ["events", file]

/-- A device below `event_source`. -/
def pmuDevice (fs : FileSystem) (pmuRoot : Path) (e : DirEntry) : Scrape :=
  match pmuType e.name with
  | none => .nothing
  | some pmuType =>
      counterIfRead fs (pmuFile pmuRoot e "amba_reads") "memory_bandwidth_read_bytes_total"
          [pmuType] ++
        counterIfRead fs (pmuFile pmuRoot e "amba_writes") "memory_bandwidth_write_bytes_total"
          [pmuType]

/-- `pmuEventSourceRoot`, below `SysfsRoot`. -/
def pmuEventSourceRoot (root : Path) : Path := below root ["bus", "event_source", "devices"]

/-- `PMUCollector.Collect`. -/
def pmuCollect (fs : FileSystem) (root : Path) (duration : PyFloat) : List Sample :=
  match fs.readDir (pmuEventSourceRoot root) with
  | none => collectorUp "pmu" (.fin 0) :: emitSelf "pmu" duration 1
  | some entries =>
      let scrape := Scrape.each (pmuDevice fs (pmuEventSourceRoot root)) entries
      let upVal := if scrape.successCount = 0 ∧ entries = [] then .fin 0 else .fin 1
      scrape.samples ++ collectorUp "pmu" upVal :: emitSelf "pmu" duration 0

/-! ## The cache collector -/

/-- `reCacheECC`, which is not anchored. -/
def reCacheECC : Re :=
  Re.lit "arm-cache-ecc.cpu".toList ++ .group 1 (Re.plus Char.isDigit) ++ Re.lit "-".toList ++
    .group 2 (Re.plus fun c => ('a' ≤ c && c ≤ 'z') || c.isDigit)

/-- The cpu and the level of a cache device. -/
def cacheLabels (name : Text) : Option (List Text) :=
  (reCacheECC.search name).map fun m => [captured m 1, captured m 2]

/-- The directory of `cacheECCGlob`, below `SysfsRoot`. -/
def cacheDevicesRoot (root : Path) : Path := below root ["bus", "platform", "devices"]

/-- The matches of `cacheECCGlob`; a directory which cannot be read has none. -/
def cacheMatches (fs : FileSystem) (root : Path) : List DirEntry :=
  ((fs.readDir (cacheDevicesRoot root)).getD []).filter fun e =>
    "arm-cache-ecc.".toList.isPrefixOf e.name

/-- A file of a cache device. -/
def cacheFile (root : Path) (e : DirEntry) (file : String) : Path :=
  below (cacheDevicesRoot root ++ [e.name]) [file]

/-- A cache device. -/
def cacheDevice (fs : FileSystem) (root : Path) (e : DirEntry) : Scrape :=
  match cacheLabels e.name with
  | none => .nothing
  | some labels =>
      counterFile fs (cacheFile root e "corrected_errors") "cpu_cache_correctable_total" labels ++
        counterFile fs (cacheFile root e "uncorrected_errors") "cpu_cache_uncorrectable_total"
          labels

/-- `CacheParityCollector.Collect`. -/
def cacheParityCollect (fs : FileSystem) (root : Path) (duration : PyFloat) : List Sample :=
  let devices := cacheMatches fs root
  if devices = [] then
    collectorUp "cache_parity" (.fin 0) :: emitSelf "cache_parity" duration 0
  else
    let scrape := Scrape.each (cacheDevice fs root) devices
    let upVal := if 0 < scrape.successCount then .fin 1 else .fin 0
    scrape.samples ++ collectorUp "cache_parity" upVal ::
      emitSelf "cache_parity" duration scrape.errCount

/-! ## The DIMM collector -/

/-- `DIMMInfo`, without the handle, which no sample shows. -/
structure DIMMInfo where
  locator : Text
  bankLocator : Text
  sizeMB : Nat
  type : Text
  speedMHz : Nat
  manufacturer : Text
  serialNumber : Text
  partNumber : Text
  edacController : Text
  edacCsrow : Int
  edacChannel : Int

/-- An index, or `unknown` for one that could not be inferred. -/
def indexText (i : Int) : Text := if 0 ≤ i then Nat.toDigits 10 i.toNat else "unknown".toList

/-- Whether the slot is shown. -/
def DIMMInfo.shown (d : DIMMInfo) : Bool := !(d.sizeMB == 0 && d.locator.isEmpty)

/-- The labels of a slot. -/
def DIMMInfo.labels (d : DIMMInfo) : List Text :=
  [if d.edacController = [] then "unknown".toList else d.edacController, indexText d.edacCsrow,
    indexText d.edacChannel, d.locator, d.bankLocator, d.type, d.manufacturer,
    trimSpace d.partNumber, Nat.toDigits 10 d.sizeMB, Nat.toDigits 10 d.speedMHz]

/-- `DIMMCollector.Collect`, with the table that its mapper has loaded. -/
def dimmCollect (table : List DIMMInfo) : List Sample :=
  (table.filter DIMMInfo.shown).map fun d => ⟨"hw_dimm_info", d.labels, .fin 1⟩

/-! ## What the devices send -/

/-- A part of a scrape sends a series. -/
def Scrape.Sends (scrape : Scrape) (k : String × List Text) : Prop :=
  ∃ s ∈ scrape.samples, s.series = k

section Sends

variable {fs : FileSystem} {path root : Path} {name : String} {labels : List Text}
  {k : String × List Text} {a b : Scrape} {e e' : DirEntry}

/-- Whether a counter can be read. -/
def Readable (fs : FileSystem) (path : Path) : Prop := (readUint64 fs path).isSome

theorem sends_append : (a ++ b).Sends k ↔ a.Sends k ∨ b.Sends k := by
  simp only [Scrape.Sends, Scrape.samples_append, List.mem_append, or_and_right, exists_or]

/-- Nothing is sent by doing nothing. -/
theorem not_sends_nothing : ¬ Scrape.nothing.Sends k := by
  simp [Scrape.Sends]

/-- A counter file is sent exactly when it is readable. -/
theorem sends_counterFile :
    (counterFile fs path name labels).Sends k ↔ Readable fs path ∧ k = (name, labels) := by
  unfold counterFile Readable
  cases readUint64 fs path with
  | none => simp [Scrape.Sends]
  | some n => simp [Scrape.Sends, Sample.series, eq_comm]

/-- An optional counter is sent exactly when it is readable. -/
theorem sends_counterIfRead :
    (counterIfRead fs path name labels).Sends k ↔ Readable fs path ∧ k = (name, labels) := by
  unfold counterIfRead Readable
  cases readUint64 fs path with
  | none => simp [Scrape.Sends]
  | some n => simp [Scrape.Sends, Sample.series, eq_comm]

/-- An optional counter sends no series twice. -/
theorem distinct_counterIfRead : Distinct (counterIfRead fs path name labels).samples := by
  unfold counterIfRead
  split
  · exact distinct_nil
  · exact distinct_singleton _

/-- Two parts share no series. -/
theorem disjoint_iff : (∀ s ∈ a.samples, ∀ t ∈ b.samples, s.series ≠ t.series) ↔
    ¬ ∃ k, a.Sends k ∧ b.Sends k := by
  constructor
  · intro h ⟨k, ⟨s, hs, hsk⟩, t, ht, htk⟩
    exact h s hs t ht (hsk.trans htk.symm)
  · intro h s hs t ht heq
    exact h ⟨t.series, ⟨s, hs, heq⟩, t, ht, rfl⟩

/-- The label of a PMU device. -/
def pmuLabels (name : Text) : Option (List Text) := (pmuType name).map fun t => [t]

/-- What a PMU device sends: a series for each of its readable files. -/
theorem sends_pmuDevice : (pmuDevice fs path e).Sends k ↔ ∃ l, pmuLabels e.name = some l ∧
    (Readable fs (pmuFile path e "amba_reads") ∧ k = ("memory_bandwidth_read_bytes_total", l) ∨
      Readable fs (pmuFile path e "amba_writes") ∧
        k = ("memory_bandwidth_write_bytes_total", l)) := by
  unfold pmuDevice pmuLabels
  cases pmuType e.name with
  | none => simp [not_sends_nothing]
  | some t => simp [sends_append, sends_counterIfRead]

/-- What a cache device sends: a series for each of its readable files. -/
theorem sends_cacheDevice : (cacheDevice fs root e).Sends k ↔ ∃ l, cacheLabels e.name = some l ∧
    (Readable fs (cacheFile root e "corrected_errors") ∧ k = ("cpu_cache_correctable_total", l) ∨
      Readable fs (cacheFile root e "uncorrected_errors") ∧
        k = ("cpu_cache_uncorrectable_total", l)) := by
  unfold cacheDevice
  cases cacheLabels e.name with
  | none => simp [not_sends_nothing]
  | some l => simp [sends_append, sends_counterFile]

/-- One PMU device sends no series twice. -/
theorem distinct_pmuDevice : Distinct (pmuDevice fs path e).samples := by
  unfold pmuDevice
  split
  · exact distinct_nil
  · rw [Scrape.samples_append, distinct_append, disjoint_iff]
    refine ⟨distinct_counterIfRead, distinct_counterIfRead, ?_⟩
    simp [sends_counterIfRead]

/-- One cache device sends no series twice. -/
theorem distinct_cacheDevice : Distinct (cacheDevice fs root e).samples := by
  unfold cacheDevice
  split
  · exact distinct_nil
  · rw [Scrape.samples_append, distinct_append, disjoint_iff]
    refine ⟨distinct_counterFile, distinct_counterFile, ?_⟩
    simp [sends_counterFile]

/-! ## When two devices clash -/

/-- Two devices have the same labels and both have the one counter, or both the other. -/
def Clash (labels labels' : Option (List Text)) (one one' other other' : Prop) : Prop :=
  labels.isSome ∧ labels = labels' ∧ (one ∧ one' ∨ other ∧ other')

/-- Devices clash when both send one series. -/
theorem clash_iff {labels labels' : Option (List Text)} {one one' other other' : Prop}
    {n m : String} (hnm : n ≠ m) : Clash labels labels' one one' other other' ↔
      ∃ k, (∃ l, labels = some l ∧ (one ∧ k = (n, l) ∨ other ∧ k = (m, l))) ∧
        ∃ l, labels' = some l ∧ (one' ∧ k = (n, l) ∨ other' ∧ k = (m, l)) := by
  constructor
  · intro ⟨hsome, hsame, hboth⟩
    obtain ⟨l, hl⟩ := Option.isSome_iff_exists.mp hsome
    rcases hboth with ⟨h, h'⟩ | ⟨h, h'⟩
    · exact ⟨(n, l), ⟨l, hl, Or.inl ⟨h, rfl⟩⟩, l, hsame ▸ hl, Or.inl ⟨h', rfl⟩⟩
    · exact ⟨(m, l), ⟨l, hl, Or.inr ⟨h, rfl⟩⟩, l, hsame ▸ hl, Or.inr ⟨h', rfl⟩⟩
  · intro ⟨k, ⟨l, hl, h⟩, l', hl', h'⟩
    have hsome : labels.isSome = true := by rw [hl, Option.isSome_some]
    rcases h with ⟨h, rfl⟩ | ⟨h, rfl⟩ <;> rcases h' with ⟨h', heq⟩ | ⟨h', heq⟩
    · exact ⟨hsome, by rw [hl, hl', (Prod.mk.inj heq).2], Or.inl ⟨h, h'⟩⟩
    · exact absurd (Prod.mk.inj heq).1 hnm
    · exact absurd (Prod.mk.inj heq).1.symm hnm
    · exact ⟨hsome, by rw [hl, hl', (Prod.mk.inj heq).2], Or.inr ⟨h, h'⟩⟩

/-- Two PMU devices of one family which both have a counter of reads, or of writes. -/
def PmuClash (fs : FileSystem) (pmuRoot : Path) (e e' : DirEntry) : Prop :=
  Clash (pmuLabels e.name) (pmuLabels e'.name)
    (Readable fs (pmuFile pmuRoot e "amba_reads")) (Readable fs (pmuFile pmuRoot e' "amba_reads"))
    (Readable fs (pmuFile pmuRoot e "amba_writes"))
    (Readable fs (pmuFile pmuRoot e' "amba_writes"))

/-- Two cache devices of one cpu and level which both have a counter of corrected errors, or of
uncorrected ones. -/
def CacheClash (fs : FileSystem) (root : Path) (e e' : DirEntry) : Prop :=
  Clash (cacheLabels e.name) (cacheLabels e'.name)
    (Readable fs (cacheFile root e "corrected_errors"))
    (Readable fs (cacheFile root e' "corrected_errors"))
    (Readable fs (cacheFile root e "uncorrected_errors"))
    (Readable fs (cacheFile root e' "uncorrected_errors"))

/-- The PMU devices send distinct series exactly when no two of them clash. -/
theorem distinct_pmuDevices {entries : List DirEntry} :
    Distinct (Scrape.each (pmuDevice fs path) entries).samples ↔
      entries.Pairwise fun e e' => ¬ PmuClash fs path e e' := by
  have hpair : ∀ e e', (∀ s ∈ (pmuDevice fs path e).samples,
      ∀ t ∈ (pmuDevice fs path e').samples, s.series ≠ t.series) ↔ ¬ PmuClash fs path e e' := by
    intro e e'
    rw [disjoint_iff, PmuClash, clash_iff (n := "memory_bandwidth_read_bytes_total")
      (m := "memory_bandwidth_write_bytes_total") (by simp)]
    simp only [sends_pmuDevice]
  simp only [Scrape.samples_each, distinct_flatMap_iff, hpair]
  exact and_iff_right fun e _ => distinct_pmuDevice

/-- The cache devices send distinct series exactly when no two of them clash. -/
theorem distinct_cacheDevices {entries : List DirEntry} :
    Distinct (Scrape.each (cacheDevice fs root) entries).samples ↔
      entries.Pairwise fun e e' => ¬ CacheClash fs root e e' := by
  have hpair : ∀ e e', (∀ s ∈ (cacheDevice fs root e).samples,
      ∀ t ∈ (cacheDevice fs root e').samples, s.series ≠ t.series) ↔
        ¬ CacheClash fs root e e' := by
    intro e e'
    rw [disjoint_iff, CacheClash, clash_iff (n := "cpu_cache_correctable_total")
      (m := "cpu_cache_uncorrectable_total") (by simp)]
    simp only [sends_cacheDevice]
  simp only [Scrape.samples_each, distinct_flatMap_iff, hpair]
  exact and_iff_right fun e _ => distinct_cacheDevice

end Sends

/-! ## A scrape -/

/-- No two devices or slots of the host are labelled the same. -/
structure ToldApart (fs : FileSystem) (root : Path) (table : List DIMMInfo) : Prop where
  pmu : ∀ entries ∈ fs.readDir (pmuEventSourceRoot root),
    entries.Pairwise fun e e' => ¬ PmuClash fs (pmuEventSourceRoot root) e e'
  cache : (cacheMatches fs root).Pairwise fun e e' => ¬ CacheClash fs root e e'
  dimm : (table.filter DIMMInfo.shown).Pairwise fun d d' => d.labels ≠ d'.labels

/-- The metrics of the PMU collector. -/
def pmuNames : List String :=
  ["memory_bandwidth_read_bytes_total", "memory_bandwidth_write_bytes_total"]

/-- The metrics of the cache collector. -/
def cacheNames : List String := ["cpu_cache_correctable_total", "cpu_cache_uncorrectable_total"]

/-- The metric of the DIMM collector. -/
def dimmNames : List String := ["hw_dimm_info"]

section Scrape

variable {fs : FileSystem} {path root : Path} {duration : PyFloat} {table : List DIMMInfo}
  {entries : List DirEntry}

/-- The PMU devices send series of their own names. -/
theorem name_of_pmuDevices {s : Sample}
    (h : s ∈ (Scrape.each (pmuDevice fs path) entries).samples) : s.name ∈ pmuNames := by
  rw [Scrape.samples_each] at h
  obtain ⟨e, _, hs⟩ := List.mem_flatMap.mp h
  obtain ⟨l, _, ⟨_, hk⟩ | ⟨_, hk⟩⟩ := sends_pmuDevice.mp ⟨s, hs, rfl⟩ <;>
    simp [pmuNames, (Prod.mk.inj hk).1]

/-- The cache devices send series of their own names. -/
theorem name_of_cacheDevices {s : Sample}
    (h : s ∈ (Scrape.each (cacheDevice fs root) entries).samples) : s.name ∈ cacheNames := by
  rw [Scrape.samples_each] at h
  obtain ⟨e, _, hs⟩ := List.mem_flatMap.mp h
  obtain ⟨l, _, ⟨_, hk⟩ | ⟨_, hk⟩⟩ := sends_cacheDevice.mp ⟨s, hs, rfl⟩ <;>
    simp [cacheNames, (Prod.mk.inj hk).1]

theorem pmuNames_self : pmuNames.Disjoint selfNames := by simp [pmuNames, selfNames]

theorem cacheNames_self : cacheNames.Disjoint selfNames := by simp [cacheNames, selfNames]

theorem dimmNames_self : dimmNames.Disjoint selfNames := by simp [dimmNames, selfNames]

/-- The PMU collector sends distinct series exactly when no two devices clash. -/
theorem pmu_distinct_iff : Distinct (pmuCollect fs root duration) ↔
    ∀ entries ∈ fs.readDir (pmuEventSourceRoot root),
      entries.Pairwise fun e e' => ¬ PmuClash fs (pmuEventSourceRoot root) e e' := by
  unfold pmuCollect
  cases fs.readDir (pmuEventSourceRoot root) with
  | none =>
      refine iff_of_true distinct_self ?_
      intro entries h
      cases h
  | some entries =>
      simp only [Option.mem_def, Option.some.injEq, forall_eq']
      rw [← distinct_pmuDevices]
      exact ⟨fun h => (distinct_append.mp h).1,
        fun h => distinct_with_self h (fun s hs => name_of_pmuDevices hs) pmuNames_self⟩

/-- The cache collector sends distinct series exactly when no two devices clash. -/
theorem cache_distinct_iff : Distinct (cacheParityCollect fs root duration) ↔
    (cacheMatches fs root).Pairwise fun e e' => ¬ CacheClash fs root e e' := by
  simp only [cacheParityCollect]
  split
  · rename_i hnone
    rw [hnone]
    exact iff_of_true distinct_self List.Pairwise.nil
  · rw [← distinct_cacheDevices]
    exact ⟨fun h => (distinct_append.mp h).1,
      fun h => distinct_with_self h (fun s hs => name_of_cacheDevices hs) cacheNames_self⟩

/-- The DIMM collector sends distinct series exactly when no two shown DIMMs share their labels. -/
theorem dimm_distinct_iff : Distinct (dimmCollect table) ↔
    (table.filter DIMMInfo.shown).Pairwise fun d d' => d.labels ≠ d'.labels := by
  rw [Distinct, dimmCollect, List.map_map, List.Nodup, List.pairwise_map]
  have hpair : ∀ d d' : DIMMInfo, (("hw_dimm_info", d.labels) ≠ ("hw_dimm_info", d'.labels)) ↔
      d.labels ≠ d'.labels := by simp
  simp only [Function.comp_apply, Sample.series, hpair]

/-- What the PMU collector sends belongs to it. -/
theorem belongs_of_pmu {s : Sample} (h : s ∈ pmuCollect fs root duration) :
    Belongs pmuNames "pmu" s.series := by
  unfold pmuCollect at h
  split at h
  · exact Or.inr (series_of_self h)
  · exact belongs_of_mem (fun s hs => name_of_pmuDevices hs) h

/-- What the cache collector sends belongs to it. -/
theorem belongs_of_cache {s : Sample} (h : s ∈ cacheParityCollect fs root duration) :
    Belongs cacheNames "cache_parity" s.series := by
  simp only [cacheParityCollect] at h
  split at h
  · exact Or.inr (series_of_self h)
  · exact belongs_of_mem (fun s hs => name_of_cacheDevices hs) h

/-- What the DIMM collector sends belongs to it. -/
theorem belongs_of_dimm {s : Sample} (h : s ∈ dimmCollect table) :
    Belongs dimmNames "dimm" s.series := by
  obtain ⟨d, _, rfl⟩ := List.mem_map.mp h
  exact Or.inl (by simp [Sample.series, dimmNames])

/-- **One scrape** of the three collectors sends no series twice exactly when the devices and
slots are labelled differently. -/
theorem devices_distinct_iff (fs : FileSystem) (root : Path) (table : List DIMMInfo)
    (pmuTime cacheTime : PyFloat) :
    Distinct (pmuCollect fs root pmuTime ++ cacheParityCollect fs root cacheTime ++
      dimmCollect table) ↔ ToldApart fs root table := by
  rw [distinct_append, distinct_append, pmu_distinct_iff, cache_distinct_iff, dimm_distinct_iff]
  have hpc : ∀ s ∈ pmuCollect fs root pmuTime, ∀ t ∈ cacheParityCollect fs root cacheTime,
      s.series ≠ t.series := fun s hs t ht =>
    belongs_ne (belongs_of_pmu hs) (belongs_of_cache ht) (by simp [pmuNames, cacheNames])
      pmuNames_self cacheNames_self (by simp)
  have hd : ∀ s ∈ pmuCollect fs root pmuTime ++ cacheParityCollect fs root cacheTime,
      ∀ t ∈ dimmCollect table, s.series ≠ t.series := by
    intro s hs t ht
    rcases List.mem_append.mp hs with hs | hs
    · exact belongs_ne (belongs_of_pmu hs) (belongs_of_dimm ht) (by simp [pmuNames, dimmNames])
        pmuNames_self dimmNames_self (by simp)
    · exact belongs_ne (belongs_of_cache hs) (belongs_of_dimm ht) (by simp [cacheNames, dimmNames])
        cacheNames_self dimmNames_self (by simp)
  constructor
  · intro ⟨⟨hpmu, hcache, _⟩, hdimm, _⟩
    exact ⟨hpmu, hcache, hdimm⟩
  · intro h
    exact ⟨⟨h.pmu, h.cache, hpc⟩, h.dimm, hd⟩

end Scrape

/-- A host with two CMN meshes which both count reads. -/
def twoMeshes : FileSystem where
  readDir := fun path =>
    if path = pmuEventSourceRoot [] then
      some [⟨"arm_cmn_0".toList, true⟩, ⟨"arm_cmn_1".toList, true⟩]
    else none
  readFile := fun path =>
    if path.getLast? = some "amba_reads".toList then some "42\n".toList else none
  stat := fun _ => .notExist
  nodup_names := by
    intro path entries h
    split at h
    · obtain rfl := Option.some.inj h
      decide
    · cases h

/-- A scrape of this host sends the series of the read bytes twice. -/
theorem read_bytes_sent_twice :
    ¬ Distinct (pmuCollect twoMeshes [] (.fin 0) ++ cacheParityCollect twoMeshes [] (.fin 0) ++
      dimmCollect []) := by
  decide +kernel

end FaultOracle.Exporter
