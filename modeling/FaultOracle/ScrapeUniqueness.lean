import FaultOracle.HardwareCollectors

/-!
# No series twice

One scrape of the EDAC, machine check and AER collectors sends no series twice, whatever the
host answers.  The labels of a sample tell the names it was made from: a directory or file
name can be put together again from the parts that stand in the labels, and the entries of a
directory have different names.
-/

namespace FaultOracle.Exporter

open BacktrackingRegex GoStrings InsertionDict PythonFloats

/-! ## Names from captures -/

def Digits (t : Text) : Prop := t ≠ [] ∧ ∀ c ∈ t, c.isDigit = true

section Numbered

variable {name n : Text}

/-- A csrow directory is known by its number. -/
theorem reCsrowDir_eq_some_iff :
    (∃ m, reCsrowDir.fullMatch name = some m ∧ captured m 1 = n) ↔
      Digits n ∧ name = "csrow".toList ++ n := by
  have hcaptured : ∀ {m}, reCsrowDir.fullMatch name = some m →
      Digits (captured m 1) ∧ name = "csrow".toList ++ captured m 1 := by
    intro m hm
    obtain ⟨f, hf, hg⟩ := fullMatch_captures hm
    simp only [reCsrowDir, captures_append, captures_lit, captures_group, captures_plus] at hf
    obtain ⟨_, idx, _, _, ⟨rfl, rfl⟩, ⟨_, ⟨hne, hdigits, rfl⟩, rfl⟩, rfl, rfl⟩ := hf
    simpa [captured, hg, Digits] using ⟨hne, hdigits⟩
  constructor
  · intro h
    obtain ⟨m, hm, hn⟩ := h
    exact hn ▸ hcaptured hm
  · intro h
    obtain ⟨hn, hname⟩ := h
    obtain ⟨m, hm⟩ : ∃ m, reCsrowDir.fullMatch name = some m := by
      refine exists_fullMatch (by simp [reCsrowDir]) ?_
      simp only [reCsrowDir, lang_append, lang_lit, lang_group, lang_plus]
      exact ⟨_, n, rfl, hn, hname⟩
    exact ⟨m, hm, List.append_cancel_left ((hcaptured hm).2.symm.trans hname)⟩

/-- A channel's counter file is known by its number. -/
theorem reChFile_eq_some_iff :
    (∃ m, reChFile.fullMatch name = some m ∧ captured m 1 = n) ↔
      Digits n ∧ name = "ch".toList ++ n ++ "_ce_count".toList := by
  have hcaptured : ∀ {m}, reChFile.fullMatch name = some m →
      Digits (captured m 1) ∧ name = "ch".toList ++ captured m 1 ++ "_ce_count".toList := by
    intro m hm
    obtain ⟨f, hf, hg⟩ := fullMatch_captures hm
    simp only [reChFile, captures_append, captures_lit, captures_group, captures_plus] at hf
    obtain ⟨_, _, _, _, ⟨_, idx, _, _, ⟨rfl, rfl⟩, ⟨_, ⟨hne, hdigits, rfl⟩, rfl⟩, rfl, rfl⟩,
      ⟨rfl, rfl⟩, rfl, rfl⟩ := hf
    simpa [captured, hg, Digits] using ⟨hne, hdigits⟩
  constructor
  · intro h
    obtain ⟨m, hm, hn⟩ := h
    exact hn ▸ hcaptured hm
  · intro h
    obtain ⟨hn, hname⟩ := h
    obtain ⟨m, hm⟩ : ∃ m, reChFile.fullMatch name = some m := by
      refine exists_fullMatch (by simp [reChFile]) ?_
      simp only [reChFile, lang_append, lang_lit, lang_group, lang_plus]
      exact ⟨_, _, ⟨_, n, rfl, hn, rfl⟩, rfl, hname⟩
    have hsame := (hcaptured hm).2.symm.trans hname
    exact ⟨m, hm, List.append_cancel_left (List.append_cancel_right hsame)⟩

end Numbered

/-- A counter file's name is its type with `_count` behind it. -/
theorem name_of_reCounter {name : Text} {m : Match} (h : reCounter.fullMatch name = some m) :
    name = captured m 1 ++ "_count".toList := by
  obtain ⟨f, hf, hg⟩ := fullMatch_captures h
  simp only [reCounter, captures_append, captures_lit, captures_group, captures_plus] at hf
  obtain ⟨severity, _, _, _, ⟨_, ⟨_, _, rfl⟩, rfl⟩, ⟨rfl, rfl⟩, rfl, rfl⟩ := hf
  simp [captured, hg]

/-- That of a bank has the bank too, which is never `all`. -/
theorem name_of_reBankCounter {name : Text} {m : Match}
    (h : reBankCounter.fullMatch name = some m) :
    name = captured m 1 ++ "_bank".toList ++ captured m 2 ++ "_count".toList ∧
      captured m 2 ≠ "all".toList := by
  obtain ⟨f, hf, hg⟩ := fullMatch_captures h
  simp only [reBankCounter, captures_append, captures_lit, captures_group, captures_plus] at hf
  obtain ⟨_, _, _, _, ⟨_, bank, _, _, ⟨severity, _, _, _, ⟨_, ⟨_, _, rfl⟩, rfl⟩, ⟨rfl, rfl⟩, rfl,
    rfl⟩, ⟨_, ⟨_, hbank, rfl⟩, rfl⟩, rfl, rfl⟩, ⟨rfl, rfl⟩, rfl, rfl⟩ := hf
  have hall : bank ≠ "all".toList := by
    rintro rfl
    have ha := hbank 'a' (by simp)
    cases ha
  simpa [captured, hg, Function.update_of_ne] using hall

/-! ## EDAC -/

section Edac

variable {fs : FileSystem} {path : Path} {name : String} {labels : List Text}

/-- A counter file has one series. -/
theorem series_of_counterFile {s : Sample}
    (h : s ∈ (counterFile fs path name labels).samples) : s.series = (name, labels) := by
  unfold counterFile at h
  split at h
  · cases h
  · obtain rfl := List.mem_singleton.mp h
    rfl

/-- So it cannot have one twice. -/
theorem distinct_counterFile : Distinct (counterFile fs path name labels).samples := by
  unfold counterFile
  split
  · exact distinct_nil
  · exact distinct_singleton _

variable {mc csrowIdx : Text} {e : DirEntry} {s : Sample}

/-- The series of a channel names it. -/
theorem series_of_edacChannel (h : s ∈ (edacChannel fs path mc csrowIdx e).samples) :
    ∃ ch, s.series = ("edac_correctable_errors_total", [mc, csrowIdx, ch]) ∧
      e.name = "ch".toList ++ ch ++ "_ce_count".toList := by
  unfold edacChannel at h
  split at h
  · cases h
  · rename_i fm hfm
    exact ⟨_, series_of_counterFile h, (reChFile_eq_some_iff.mp ⟨fm, hfm, rfl⟩).2⟩

/-- A channel has one sample at most. -/
theorem distinct_edacChannel : Distinct (edacChannel fs path mc csrowIdx e).samples := by
  unfold edacChannel
  split
  · exact distinct_nil
  · exact distinct_counterFile

/-- Channels of different names have different series. -/
theorem distinct_channels {entries : List DirEntry}
    (hnames : (entries.map DirEntry.name).Nodup) :
    Distinct (Scrape.each (edacChannel fs path mc csrowIdx) entries).samples := by
  rw [Scrape.samples_each]
  apply distinct_flatMap DirEntry.name
    (fun k => "ch".toList ++ k.2.getD 2 [] ++ "_ce_count".toList) hnames
  · intro e _
    exact distinct_edacChannel
  · intro e _ s hs
    obtain ⟨ch, hseries, hname⟩ := series_of_edacChannel hs
    rw [hseries, hname]
    rfl

/-- The series of a csrow name it. -/
theorem series_of_edacCsrow (h : s ∈ (edacCsrow fs path mc e).samples) :
    ∃ idx, e.name = "csrow".toList ++ idx ∧
      (s.series = ("edac_uncorrectable_errors_total", [mc, idx]) ∨
        ∃ ch, s.series = ("edac_correctable_errors_total", [mc, idx, ch])) := by
  unfold edacCsrow at h
  split at h
  · cases h
  · split at h
    · cases h
    · rename_i cm hcm
      refine ⟨captured cm 1, (reCsrowDir_eq_some_iff.mp ⟨cm, hcm, rfl⟩).2, ?_⟩
      rcases List.mem_append.mp h with h | h
      · exact Or.inl (series_of_counterFile h)
      · split at h
        · cases h
        · rw [Scrape.samples_each] at h
          obtain ⟨_, _, h⟩ := List.mem_flatMap.mp h
          obtain ⟨ch, hseries, _⟩ := series_of_edacChannel h
          exact Or.inr ⟨ch, hseries⟩

/-- A csrow gives no series twice. -/
theorem distinct_edacCsrow : Distinct (edacCsrow fs path mc e).samples := by
  unfold edacCsrow
  split
  · exact distinct_nil
  · split
    · exact distinct_nil
    · rw [Scrape.samples_append, distinct_append]
      refine ⟨distinct_counterFile, ?_, ?_⟩
      · split
        · exact distinct_nil
        · rename_i hentries
          exact distinct_channels (fs.nodup_names _ _ hentries)
      · intro s hs t ht
        split at ht
        · cases ht
        · rw [Scrape.samples_each] at ht
          obtain ⟨_, _, ht⟩ := List.mem_flatMap.mp ht
          obtain ⟨ch, hseries, _⟩ := series_of_edacChannel ht
          rw [series_of_counterFile hs, hseries]
          simp

/-- Nor do several with different names. -/
theorem distinct_csrows {entries : List DirEntry}
    (hnames : (entries.map DirEntry.name).Nodup) :
    Distinct (Scrape.each (edacCsrow fs path mc) entries).samples := by
  rw [Scrape.samples_each]
  apply distinct_flatMap DirEntry.name
    (fun k => "csrow".toList ++ k.2.getD 1 []) hnames
  · intro e _
    exact distinct_edacCsrow
  · intro e _ s hs
    obtain ⟨idx, hname, hseries | ⟨ch, hseries⟩⟩ := series_of_edacCsrow hs <;>
    · rw [hseries, hname]
      rfl

/-- The metrics of the memory controllers. -/
def edacNames : List String :=
  ["edac_correctable_errors_total", "edac_uncorrectable_errors_total", "edac_controller_ce_total",
    "edac_controller_ue_total"]

/-- The series of a controller have its name as the first label. -/
theorem series_of_edacController (h : s ∈ (edacController fs path e).samples) :
    s.name ∈ edacNames ∧ s.labels.head? = some e.name := by
  unfold edacController at h
  split at h
  · cases h
  · split at h
    · cases h
    · have hof : ∀ name labels, s.series = (name, e.name :: labels) → name ∈ edacNames →
          s.name ∈ edacNames ∧ s.labels.head? = some e.name := by
        intro name labels hseries hname
        obtain ⟨rfl, hlabels⟩ := Prod.mk.inj hseries
        exact ⟨hname, by rw [hlabels]; rfl⟩
      rw [Scrape.samples_append, Scrape.samples_append, List.mem_append, List.mem_append] at h
      rcases h with (h | h) | h
      · exact hof _ _ (series_of_counterFile h) (by simp [edacNames])
      · exact hof _ _ (series_of_counterFile h) (by simp [edacNames])
      · split at h
        · cases h
        · rw [Scrape.samples_each] at h
          obtain ⟨_, _, h⟩ := List.mem_flatMap.mp h
          obtain ⟨idx, _, hseries | ⟨ch, hseries⟩⟩ := series_of_edacCsrow h
          · exact hof _ _ hseries (by simp [edacNames])
          · exact hof _ _ hseries (by simp [edacNames])

/-- A controller gives no series twice. -/
theorem distinct_edacController : Distinct (edacController fs path e).samples := by
  unfold edacController
  split
  · exact distinct_nil
  · split
    · exact distinct_nil
    · rw [Scrape.samples_append, Scrape.samples_append, distinct_append, distinct_append]
      refine ⟨⟨distinct_counterFile, distinct_counterFile, ?_⟩, ?_, ?_⟩
      · intro s hs t ht
        rw [series_of_counterFile hs, series_of_counterFile ht]
        simp
      · split
        · exact distinct_nil
        · rename_i hentries
          exact distinct_csrows (fs.nodup_names _ _ hentries)
      · intro s hs t ht
        split at ht
        · cases ht
        · rw [Scrape.samples_each] at ht
          obtain ⟨_, _, ht⟩ := List.mem_flatMap.mp ht
          rw [List.mem_append] at hs
          obtain ⟨idx, _, ht | ⟨ch, ht⟩⟩ := series_of_edacCsrow ht <;>
            rcases hs with hs | hs <;> rw [series_of_counterFile hs, ht] <;> simp

/-- Nor do several with different names. -/
theorem distinct_controllers {entries : List DirEntry}
    (hnames : (entries.map DirEntry.name).Nodup) :
    Distinct (Scrape.each (edacController fs path) entries).samples := by
  rw [Scrape.samples_each]
  apply distinct_flatMap (fun e => some e.name) (fun k => k.2.head?)
  · have hsome := hnames.map (Option.some_injective Text)
    rwa [List.map_map] at hsome
  · intro e _
    exact distinct_edacController
  · intro e _ s hs
    exact (series_of_edacController hs).2

end Edac

/-! ## What a collector sends of itself -/

/-- The metrics which every collector has. -/
def selfNames : List String :=
  ["fault_resilience_collector_up", "hw_fault_exporter_scrape_duration_seconds",
    "hw_fault_exporter_scrape_errors_total"]

/-- A series of one of these metrics, or of the collector itself. -/
def Belongs (names : List String) (collector : String) (k : String × List Text) : Prop :=
  k.1 ∈ names ∨ k.1 ∈ selfNames ∧ k.2 = [collector.toList]

section Self

variable {names names' : List String} {collector collector' : String} {body : List Sample}
  {value duration : PyFloat} {errCount : Nat}

/-- The three samples about the collector itself are different series. -/
theorem distinct_self :
    Distinct (collectorUp collector value :: emitSelf collector duration errCount) := by
  simp [Distinct, collectorUp, emitSelf, Sample.series]

/-- They have the collector as their label. -/
theorem series_of_self {s : Sample}
    (h : s ∈ collectorUp collector value :: emitSelf collector duration errCount) :
    s.name ∈ selfNames ∧ s.labels = [collector.toList] := by
  simp only [emitSelf, List.mem_cons, List.not_mem_nil, or_false] at h
  rcases h with rfl | rfl | rfl <;> simp [collectorUp, selfNames]

/-- Every sample is one of the collector's own or one about it. -/
theorem belongs_of_mem (hbody : ∀ s ∈ body, s.name ∈ names) {s : Sample}
    (h : s ∈ body ++ collectorUp collector value :: emitSelf collector duration errCount) :
    Belongs names collector s.series := by
  rcases List.mem_append.mp h with h | h
  · exact Or.inl (hbody s h)
  · exact Or.inr (series_of_self h)

/-- The samples about the collector add no series a second time. -/
theorem distinct_with_self (hdistinct : Distinct body) (hbody : ∀ s ∈ body, s.name ∈ names)
    (hnames : names.Disjoint selfNames) :
    Distinct (body ++ collectorUp collector value :: emitSelf collector duration errCount) := by
  rw [distinct_append]
  refine ⟨hdistinct, distinct_self, ?_⟩
  intro s hs t ht heq
  have hname : s.name = t.name := congrArg Prod.fst heq
  exact hnames (hbody s hs) (hname ▸ (series_of_self ht).1)

/-- Two collectors with metrics of their own share no series. -/
theorem belongs_ne {k k' : String × List Text} (h : Belongs names collector k)
    (h' : Belongs names' collector' k') (hnames : names.Disjoint names')
    (hself : names.Disjoint selfNames) (hself' : names'.Disjoint selfNames)
    (hne : collector ≠ collector') : k ≠ k' := by
  rintro rfl
  rcases h with h | ⟨h, hlabel⟩ <;> rcases h' with h' | ⟨h', hlabel'⟩
  · exact hnames h h'
  · exact hself h h'
  · exact hself' h' h
  · exact hne (String.toList_injective (List.cons.inj (hlabel.symm.trans hlabel')).1)

end Self

/-- The EDAC collector gives no series twice, and only its own. -/
theorem edac_distinct (fs : FileSystem) (root : Path) (duration : PyFloat) :
    Distinct (edacCollect fs root duration) ∧
      ∀ s ∈ edacCollect fs root duration, Belongs edacNames "edac" s.series := by
  have hself : edacNames.Disjoint selfNames := by simp [edacNames, selfNames]
  simp only [edacCollect]
  split
  · exact ⟨distinct_self, fun s hs => Or.inr (series_of_self hs)⟩
  · rename_i mcDirs hdirs
    have hnames : ∀ s ∈ (Scrape.each (edacController fs (below root
        ["devices", "system", "edac", "mc"])) mcDirs).samples, s.name ∈ edacNames := by
      intro s hs
      rw [Scrape.samples_each] at hs
      obtain ⟨_, _, hs⟩ := List.mem_flatMap.mp hs
      exact (series_of_edacController hs).1
    exact ⟨distinct_with_self (distinct_controllers (fs.nodup_names _ _ hdirs)) hnames hself,
      fun s hs => belongs_of_mem hnames hs⟩

/-! ## Machine check events -/

section Mce

variable {fs : FileSystem} {root : Path} {events : List MceEvent}

/-- The GHES counters have a series each. -/
theorem ghes_distinct (h : scrapeGHES fs root = some events) : Distinct (events.map mceSample) := by
  obtain ⟨_, _, rfl⟩ := Option.map_eq_some_iff.mp h
  rw [List.map_filterMap]
  apply distinct_filterMap Prod.fst (fun k => k.2.headD [])
  · simp [severityFiles]
  · intro item _ s hs
    obtain ⟨ev, hev, rfl⟩ := Option.map_eq_some_iff.mp hs
    obtain ⟨count, _, rfl⟩ := Option.map_eq_some_iff.mp hev
    rfl

/-- The log is counted under different keys. -/
theorem nodup_countStatus {counts : List ((Text × Text) × Nat)}
    (h : (counts.map Prod.fst).Nodup) (bank line : Text) :
    ((countStatus bank line counts).map Prod.fst).Nodup := by
  unfold countStatus
  split
  · exact h
  · split
    · exact h
    · split
      · exact h
      · exact nodup_keys_setItem h

/-- The mcelog counts have one entry for each key. -/
theorem nodup_mcelogLines {lines : List Text} {s : McelogScan}
    (h : (s.counts.map Prod.fst).Nodup) :
    ((lines.foldl mcelogLine s).counts.map Prod.fst).Nodup := by
  induction lines generalizing s with
  | nil => exact h
  | cons line lines ih => exact ih (nodup_countStatus h _ line)

/-- So they have a series each. -/
theorem mcelog_distinct (h : scrapeMcelog fs = some events) : Distinct (events.map mceSample) := by
  unfold scrapeMcelog at h
  split at h
  · cases h
  · split at h
    · cases h
    · rename_i scan _ _
      obtain rfl := Option.some.inj h
      have hkeys : ((scan.lines.foldl mcelogLine ⟨[], []⟩).counts.map Prod.fst).Nodup :=
        nodup_mcelogLines List.nodup_nil
      rw [List.map_map, ← List.filterMap_eq_map]
      apply distinct_filterMap Prod.fst (fun k => (k.2.getD 1 [], k.2.getD 0 [])) hkeys
      intro item _ s hs
      obtain rfl := Option.some.inj hs
      rfl

/-- The name of a counter file from the labels of its event. -/
def rasName (severity bank : Text) : Text :=
  if bank = "all".toList then severity ++ "_count".toList
  else severity ++ "_bank".toList ++ bank ++ "_count".toList

/-- A RAS counter's name can be told from its labels. -/
theorem rasName_of_rasLabels {name : Text} {labels : Text × Text}
    (h : rasLabels name = some labels) : rasName labels.1 labels.2 = name := by
  obtain ⟨m, hm, hlabels⟩ := Option.map_eq_some_iff.mp h
  split at hlabels
  · rename_i bm hbm
    obtain ⟨hname, hbank⟩ := name_of_reBankCounter hbm
    rw [← hlabels, rasName, if_neg hbank, ← hname]
  · rw [← hlabels, rasName, if_pos rfl, ← name_of_reCounter hm]

/-- So the RAS counters have a series each. -/
theorem ras_distinct (h : scrapeRASCounters fs = some events) :
    Distinct (events.map mceSample) := by
  obtain ⟨entries, hentries, rfl⟩ := Option.map_eq_some_iff.mp h
  rw [List.map_filterMap]
  apply distinct_filterMap DirEntry.name
    (fun k => rasName (k.2.getD 0 []) (k.2.getD 1 [])) (fs.nodup_names _ _ hentries)
  intro e _ s hs
  obtain ⟨ev, hev, rfl⟩ := Option.map_eq_some_iff.mp hs
  obtain ⟨labels, hlabels, hev⟩ := Option.bind_eq_some_iff.mp hev
  obtain ⟨count, _, hev⟩ := Option.bind_eq_some_iff.mp hev
  obtain rfl := Option.some.inj hev
  exact rasName_of_rasLabels hlabels

/-- Whichever source answers, its events have a series each. -/
theorem mceEvents_distinct (fs : FileSystem) (root : Path) :
    Distinct ((mceEvents fs root).map mceSample) := by
  have hgetD : ∀ source : Option (List MceEvent),
      (∀ events, source = some events → Distinct (events.map mceSample)) →
        Distinct ((source.getD []).map mceSample) := by
    intro source hsource
    cases source with
    | none => exact distinct_nil
    | some events => exact hsource events rfl
  simp only [mceEvents]
  split
  · exact hgetD _ fun _ => ghes_distinct
  · split
    · exact hgetD _ fun _ => mcelog_distinct
    · exact hgetD _ fun _ => ras_distinct

/-- The metrics of machine check events. -/
def mceNames : List String := ["mce_events_total", "mce_available"]

/-- The MCE collector gives no series twice, and only its own. -/
theorem mce_distinct (fs : FileSystem) (root : Path) (duration : PyFloat) :
    Distinct (mceCollect fs root duration) ∧
      ∀ s ∈ mceCollect fs root duration, Belongs mceNames "mce" s.series := by
  have hself : mceNames.Disjoint selfNames := by simp [mceNames, selfNames]
  simp only [mceCollect]
  rw [List.append_cons]
  have hnames : ∀ s ∈ (mceEvents fs root).map mceSample ++
      [⟨"mce_available", [], if mceEvents fs root ≠ [] then .fin 1 else .fin 0⟩],
      s.name ∈ mceNames := by
    intro s hs
    rcases List.mem_append.mp hs with hs | hs
    · obtain ⟨ev, _, rfl⟩ := List.mem_map.mp hs
      simp [mceSample, mceNames]
    · obtain rfl := List.mem_singleton.mp hs
      simp [mceNames]
  refine ⟨distinct_with_self ?_ hnames hself, fun s hs => belongs_of_mem hnames hs⟩
  rw [distinct_append]
  refine ⟨mceEvents_distinct fs root, distinct_singleton _, ?_⟩
  intro s hs t ht
  obtain ⟨ev, _, rfl⟩ := List.mem_map.mp hs
  obtain rfl := List.mem_singleton.mp ht
  simp [Sample.series, mceSample]

end Mce

/-! ## PCIe AER -/

section Aer

variable {fs : FileSystem} {path : Path}

/-- A line adds to the entry of its error type or puts a new one in. -/
theorem nodup_aerLine {result : List (Text × Nat)} (h : (result.map Prod.fst).Nodup)
    (line : Text) : ((aerLine result line).map Prod.fst).Nodup := by
  unfold aerLine
  split
  · split
    · exact nodup_keys_setItem h
    · exact h
  · exact h

/-- So do several. -/
theorem nodup_aerLines {lines : List Text} {result : List (Text × Nat)}
    (h : (result.map Prod.fst).Nodup) : ((lines.foldl aerLine result).map Prod.fst).Nodup := by
  induction lines generalizing result with
  | nil => exact h
  | cons line lines ih => exact ih (nodup_aerLine h line)

/-- An AER file has one entry for each error type. -/
theorem nodup_parseAERFile {text : Text} {counts : List (Text × Nat)}
    (h : parseAERFile text = some counts) : (counts.map Prod.fst).Nodup := by
  simp only [parseAERFile] at h
  split at h
  · cases h
  · obtain rfl := Option.some.inj h
    exact nodup_aerLines List.nodup_nil

variable {total name : String} {labels : Text → List Text} {s : Sample}

/-- Its series name the error type. -/
theorem series_of_aerFile (h : s ∈ (aerFile fs path total name labels).samples) :
    ∃ errType, s.series = (name, labels errType) := by
  unfold aerFile at h
  split at h
  · cases h
  · obtain ⟨item, _, rfl⟩ := List.mem_map.mp h
    exact ⟨item.1, rfl⟩

/-- So an AER file gives no series twice. -/
theorem distinct_aerFile (hlabels : Function.Injective labels) :
    Distinct (aerFile fs path total name labels).samples := by
  unfold aerFile
  split
  · exact distinct_nil
  · rename_i counts hcounts
    obtain ⟨text, _, hparse⟩ := Option.bind_eq_some_iff.mp hcounts
    have hkeys : ((counts.filter fun item => item.1 ≠ total.toList).map Prod.fst).Nodup :=
      ((List.filter_sublist).map Prod.fst).nodup (nodup_parseAERFile hparse)
    have hseries := (List.Nodup.map hlabels hkeys).map (Prod.mk_right_injective name)
    rw [Distinct, List.map_map]
    rwa [List.map_map, List.map_map] at hseries

/-- The series of an uncorrectable file have its severity too. -/
theorem series_of_aerUncorrectable {bdf : Text} {file severity : String}
    (h : s ∈ (aerUncorrectable fs path bdf file severity).samples) :
    ∃ errType, s.series =
      ("pcie_aer_uncorrectable_total", [bdf, errType, severity.toList]) := by
  unfold aerUncorrectable at h
  split at h
  · exact series_of_aerFile h
  · cases h

/-- Such a file gives no series twice. -/
theorem distinct_aerUncorrectable {bdf : Text} {file severity : String} :
    Distinct (aerUncorrectable fs path bdf file severity).samples := by
  unfold aerUncorrectable
  split
  · apply distinct_aerFile
    intro errType errType' h
    simpa using h
  · exact distinct_nil

/-- The metrics of PCIe errors. -/
def aerNames : List String :=
  ["pcie_aer_correctable_total", "pcie_aer_uncorrectable_total", "pcie_aer_devices_total"]

variable {e : DirEntry}

/-- The series of a device have its address as the first label. -/
theorem series_of_aerDevice (h : s ∈ (aerDevice fs path e).samples) :
    s.name ∈ aerNames ∧ s.name ≠ "pcie_aer_devices_total" ∧ s.labels.head? = some e.name := by
  have hof : ∀ name labels, s.series = (name, e.name :: labels) → name ∈ aerNames →
      name ≠ "pcie_aer_devices_total" →
      s.name ∈ aerNames ∧ s.name ≠ "pcie_aer_devices_total" ∧ s.labels.head? = some e.name := by
    intro name labels hseries hname hne
    obtain ⟨rfl, hlabels⟩ := Prod.mk.inj hseries
    exact ⟨hname, hne, by rw [hlabels]; rfl⟩
  simp only [aerDevice, Scrape.samples_append, List.mem_append] at h
  rcases h with (h | h) | h
  · obtain ⟨errType, hseries⟩ := series_of_aerFile h
    exact hof _ _ hseries (by simp [aerNames]) (by simp)
  · obtain ⟨errType, hseries⟩ := series_of_aerUncorrectable h
    exact hof _ _ hseries (by simp [aerNames]) (by simp)
  · obtain ⟨errType, hseries⟩ := series_of_aerUncorrectable h
    exact hof _ _ hseries (by simp [aerNames]) (by simp)

/-- The files of a device have no series in common. -/
theorem distinct_aerDevice : Distinct (aerDevice fs path e).samples := by
  simp only [aerDevice, Scrape.samples_append]
  rw [distinct_append, distinct_append]
  refine ⟨⟨distinct_aerFile ?_, distinct_aerUncorrectable, ?_⟩, distinct_aerUncorrectable, ?_⟩
  · intro errType errType' h
    simpa using h
  · intro s hs t ht
    obtain ⟨_, hs⟩ := series_of_aerFile hs
    obtain ⟨_, ht⟩ := series_of_aerUncorrectable ht
    rw [hs, ht]
    simp
  · intro s hs t ht
    obtain ⟨_, ht⟩ := series_of_aerUncorrectable ht
    rcases List.mem_append.mp hs with hs | hs
    · obtain ⟨_, hs⟩ := series_of_aerFile hs
      rw [hs, ht]
      simp
    · obtain ⟨_, hs⟩ := series_of_aerUncorrectable hs
      rw [hs, ht]
      simp

/-- Nor have devices of different names. -/
theorem distinct_devices {entries : List DirEntry} (hnames : (entries.map DirEntry.name).Nodup) :
    Distinct (Scrape.each (aerDevice fs path) (entries.filter (hasAER fs path))).samples := by
  rw [Scrape.samples_each]
  apply distinct_flatMap (fun e => some e.name) (fun k => k.2.head?)
  · have hdevices : ((entries.filter (hasAER fs path)).map DirEntry.name).Nodup :=
      ((List.filter_sublist).map DirEntry.name).nodup hnames
    have hsome := hdevices.map (Option.some_injective Text)
    rwa [List.map_map] at hsome
  · intro e _
    exact distinct_aerDevice
  · intro e _ s hs
    exact (series_of_aerDevice hs).2.2

end Aer

/-- The AER collector gives no series twice, and only its own. -/
theorem aer_distinct (fs : FileSystem) (root : Path) (duration : PyFloat) :
    Distinct (aerCollect fs root duration) ∧
      ∀ s ∈ aerCollect fs root duration, Belongs aerNames "aer" s.series := by
  have hself : aerNames.Disjoint selfNames := by simp [aerNames, selfNames]
  simp only [aerCollect]
  split
  · exact ⟨distinct_self, fun s hs => Or.inr (series_of_self hs)⟩
  · rename_i entries hentries
    rw [List.append_cons]
    have hdevice : ∀ s ∈ (Scrape.each (aerDevice fs (below root ["bus", "pci", "devices"]))
        (entries.filter (hasAER fs (below root ["bus", "pci", "devices"])))).samples,
        s.name ∈ aerNames ∧ s.name ≠ "pcie_aer_devices_total" := by
      intro s hs
      rw [Scrape.samples_each] at hs
      obtain ⟨_, _, hs⟩ := List.mem_flatMap.mp hs
      exact ⟨(series_of_aerDevice hs).1, (series_of_aerDevice hs).2.1⟩
    have hnames : ∀ s ∈ (Scrape.each (aerDevice fs (below root ["bus", "pci", "devices"]))
        (entries.filter (hasAER fs (below root ["bus", "pci", "devices"])))).samples ++
        [⟨"pcie_aer_devices_total", [], float64
          (entries.filter (hasAER fs (below root ["bus", "pci", "devices"]))).length⟩],
        s.name ∈ aerNames := by
      intro s hs
      rcases List.mem_append.mp hs with hs | hs
      · exact (hdevice s hs).1
      · obtain rfl := List.mem_singleton.mp hs
        simp [aerNames]
    refine ⟨distinct_with_self ?_ hnames hself, fun s hs => belongs_of_mem hnames hs⟩
    rw [distinct_append]
    refine ⟨distinct_devices (fs.nodup_names _ _ hentries), distinct_singleton _, ?_⟩
    intro s hs t ht heq
    obtain rfl := List.mem_singleton.mp ht
    exact (hdevice s hs).2 (congrArg Prod.fst heq)

/-! ## A scrape -/

/-- **One scrape** of the three collectors sends no series twice. -/
theorem scrape_distinct (fs : FileSystem) (root : Path) (edacTime mceTime aerTime : PyFloat) :
    Distinct (edacCollect fs root edacTime ++ mceCollect fs root mceTime ++
      aerCollect fs root aerTime) := by
  obtain ⟨hedac, hedacOwn⟩ := edac_distinct fs root edacTime
  obtain ⟨hmce, hmceOwn⟩ := mce_distinct fs root mceTime
  obtain ⟨haer, haerOwn⟩ := aer_distinct fs root aerTime
  rw [distinct_append, distinct_append]
  refine ⟨⟨hedac, hmce, ?_⟩, haer, ?_⟩
  · intro s hs t ht
    exact belongs_ne (hedacOwn s hs) (hmceOwn t ht) (by simp [edacNames, mceNames])
      (by simp [edacNames, selfNames]) (by simp [mceNames, selfNames]) (by simp)
  · intro s hs t ht
    rcases List.mem_append.mp hs with hs | hs
    · exact belongs_ne (hedacOwn s hs) (haerOwn t ht) (by simp [edacNames, aerNames])
        (by simp [edacNames, selfNames]) (by simp [aerNames, selfNames]) (by simp)
    · exact belongs_ne (hmceOwn s hs) (haerOwn t ht) (by simp [mceNames, aerNames])
        (by simp [mceNames, selfNames]) (by simp [aerNames, selfNames]) (by simp)

end FaultOracle.Exporter
