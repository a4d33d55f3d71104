import FaultOracle.ScrapeUniqueness

/-!
# The reads of a scrape of EDAC

`EDACCollector.Collect` walks a tree of three levels of directories.  What it has to read is said
of the tree alone (`CallsFor`): the listing of every directory which it has to enter, and the
counters of every controller, csrow and channel.

The walk makes each of these reads once and no other; its samples are those of the counters it
could read, and its errors are the reads that failed (`edacCollect_reads`).
-/

namespace FaultOracle.Exporter

open BacktrackingRegex PythonFloats

/-! ## Reads -/

/-- The listing of a directory, or the counter in a file with the metric and labels it is for. -/
inductive EdacRead
  | listing (path : Path)
  | counter (path : Path) (name : String) (labels : List Text)

namespace EdacRead

def path : EdacRead → Path
  | listing path => path
  | counter path _ _ => path

def succeeds (fs : FileSystem) : EdacRead → Bool
  | listing path => (fs.readDir path).isSome
  | counter path _ _ => (readUint64 fs path).isSome

/-- The sample of a counter which can be read. -/
def sample (fs : FileSystem) : EdacRead → Option Sample
  | listing _ => none
  | counter path name labels => (readUint64 fs path).map fun n => ⟨name, labels, float64 n⟩

end EdacRead

/-- An entry stands in the listing of a directory. -/
def Listed (fs : FileSystem) (path : Path) (e : DirEntry) : Prop :=
  ∃ entries, fs.readDir path = some entries ∧ e ∈ entries

/-- `edacMCRoot` below the root of sysfs. -/
def edacRoot (root : Path) : Path := below root ["devices", "system", "edac", "mc"]

/-- A controller is a directory `mc<n>`. -/
def IsController (fs : FileSystem) (root : Path) (mc : Text) : Prop :=
  (∃ n, Digits n ∧ mc = "mc".toList ++ n) ∧ Listed fs (edacRoot root) ⟨mc, true⟩

/-- A csrow is a directory `csrow<n>` of a controller. -/
def IsCsrow (fs : FileSystem) (root : Path) (mc idx : Text) : Prop :=
  IsController fs root mc ∧ Digits idx ∧
    Listed fs (edacRoot root ++ [mc]) ⟨"csrow".toList ++ idx, true⟩

/-- A channel is an entry `ch<n>_ce_count` of a csrow. -/
def IsChannel (fs : FileSystem) (root : Path) (mc idx ch : Text) : Prop :=
  IsCsrow fs root mc idx ∧ Digits ch ∧ ∃ isDir,
    Listed fs (edacRoot root ++ [mc, "csrow".toList ++ idx])
      ⟨"ch".toList ++ ch ++ "_ce_count".toList, isDir⟩

/-- The reads that a tree calls for. -/
inductive CallsFor (fs : FileSystem) (root : Path) : EdacRead → Prop
  | controllers : CallsFor fs root (.listing (edacRoot root))
  | controllerCe {mc : Text} (h : IsController fs root mc) : CallsFor fs root
      (.counter (edacRoot root ++ [mc, "ce_count".toList]) "edac_controller_ce_total" [mc])
  | controllerUe {mc : Text} (h : IsController fs root mc) : CallsFor fs root
      (.counter (edacRoot root ++ [mc, "ue_count".toList]) "edac_controller_ue_total" [mc])
  | csrows {mc : Text} (h : IsController fs root mc) :
      CallsFor fs root (.listing (edacRoot root ++ [mc]))
  | csrowUe {mc idx : Text} (h : IsCsrow fs root mc idx) : CallsFor fs root
      (.counter (edacRoot root ++ [mc, "csrow".toList ++ idx, "ue_count".toList])
        "edac_uncorrectable_errors_total" [mc, idx])
  | channels {mc idx : Text} (h : IsCsrow fs root mc idx) :
      CallsFor fs root (.listing (edacRoot root ++ [mc, "csrow".toList ++ idx]))
  | channelCe {mc idx ch : Text} (h : IsChannel fs root mc idx ch) : CallsFor fs root
      (.counter (edacRoot root ++
          [mc, "csrow".toList ++ idx, "ch".toList ++ ch ++ "_ce_count".toList])
        "edac_correctable_errors_total" [mc, idx, ch])

/-! ## Names -/

/-- The controller's pattern takes `mc` and a number, and nothing else. -/
theorem reMCDir_isSome_iff {name : Text} : (∃ m, reMCDir.fullMatch name = some m) ↔
    ∃ n, Digits n ∧ name = "mc".toList ++ n := by
  constructor
  · intro h
    obtain ⟨m, hm⟩ := h
    obtain ⟨f, hf, _⟩ := fullMatch_captures hm
    simp only [reMCDir, captures_append, captures_lit, captures_group, captures_plus] at hf
    obtain ⟨_, n, _, _, ⟨rfl, _⟩, ⟨_, ⟨hne, hdigits, _⟩, _⟩, rfl, _⟩ := hf
    exact ⟨n, ⟨hne, hdigits⟩, rfl⟩
  · intro h
    obtain ⟨n, hn, hname⟩ := h
    refine exists_fullMatch (by simp [reMCDir]) ?_
    simp only [reMCDir, lang_append, lang_lit, lang_group, lang_plus]
    exact ⟨_, n, rfl, hn, hname⟩

/-! ## The walk -/

/-- The reads of a directory: its listing, and those of its entries. -/
def listingReads (fs : FileSystem) (path : Path) (f : DirEntry → List EdacRead) :
    List EdacRead :=
  .listing path :: ((fs.readDir path).getD []).flatMap f

def channelReads (csrowPath : Path) (mc csrowIdx : Text) (e : DirEntry) : List EdacRead :=
  (reChFile.fullMatch e.name).toList.map fun fm =>
    .counter (csrowPath ++ [e.name]) "edac_correctable_errors_total" [mc, csrowIdx, captured fm 1]

def csrowReads (fs : FileSystem) (mcPath : Path) (mc : Text) (e : DirEntry) : List EdacRead :=
  if !e.isDir then []
  else
    (reCsrowDir.fullMatch e.name).toList.flatMap fun cm =>
      .counter (below (mcPath ++ [e.name]) ["ue_count"]) "edac_uncorrectable_errors_total"
          [mc, captured cm 1] ::
        listingReads fs (mcPath ++ [e.name])
          (channelReads (mcPath ++ [e.name]) mc (captured cm 1))

def controllerReads (fs : FileSystem) (mcRoot : Path) (e : DirEntry) : List EdacRead :=
  if !e.isDir then []
  else
    (reMCDir.fullMatch e.name).toList.flatMap fun _ =>
      .counter (below (mcRoot ++ [e.name]) ["ce_count"]) "edac_controller_ce_total" [e.name] ::
        .counter (below (mcRoot ++ [e.name]) ["ue_count"]) "edac_controller_ue_total" [e.name] ::
        listingReads fs (mcRoot ++ [e.name]) (csrowReads fs (mcRoot ++ [e.name]) e.name)

/-- All reads of a scrape. -/
def edacReads (fs : FileSystem) (root : Path) : List EdacRead :=
  listingReads fs (edacRoot root) (controllerReads fs (edacRoot root))

/-! ### What a part of the scrape adds -/

/-- A part of a scrape makes these reads: it has a sample for each counter read, and counts the
reads that failed. -/
structure Makes (fs : FileSystem) (s : Scrape) (reads : List EdacRead) : Prop where
  samples : s.samples = reads.filterMap (EdacRead.sample fs)
  errors : s.errCount = reads.countP fun r => !r.succeeds fs
  successes : s.successCount = (reads.filterMap (EdacRead.sample fs)).length

section Makes

variable {fs : FileSystem} {a b : Scrape} {as bs : List EdacRead} {path : Path}

/-- Nothing is scraped and nothing is read. -/
theorem makes_nothing : Makes fs .nothing [] := ⟨rfl, rfl, rfl⟩

/-- Two parts in turn make the samples of both. -/
theorem Makes.append (ha : Makes fs a as) (hb : Makes fs b bs) : Makes fs (a ++ b) (as ++ bs) where
  samples := by rw [Scrape.samples_append, ha.samples, hb.samples, List.filterMap_append]
  errors := by rw [List.countP_append, ← ha.errors, ← hb.errors]; rfl
  successes := by
    rw [List.filterMap_append, List.length_append, ← ha.successes, ← hb.successes]
    rfl

/-- An action for each entry makes the samples of all of them. -/
theorem Makes.each {f : DirEntry → Scrape} {g : DirEntry → List EdacRead}
    (h : ∀ e, Makes fs (f e) (g e)) (entries : List DirEntry) :
    Makes fs (.each f entries) (entries.flatMap g) := by
  have hfold : ∀ (entries : List DirEntry) s reads, Makes fs s reads →
      Makes fs ((entries.map f).foldl (· ++ ·) s) (reads ++ entries.flatMap g) := by
    intro entries
    induction entries with
    | nil =>
        intro s reads hs
        rwa [List.flatMap_nil, List.append_nil]
    | cons e entries ih =>
        intro s reads hs
        have hrest := ih (s ++ f e) (reads ++ g e) (hs.append (h e))
        rwa [List.append_assoc] at hrest
  exact hfold entries .nothing [] makes_nothing

/-- A counter file is one read. -/
theorem makes_counterFile (name : String) (labels : List Text) :
    Makes fs (counterFile fs path name labels) [.counter path name labels] := by
  unfold counterFile
  cases hread : readUint64 fs path with
  | none =>
      have hsample : EdacRead.sample fs (.counter path name labels) = none := by
        rw [EdacRead.sample, hread]
        rfl
      exact ⟨by simp [hsample], by simp [EdacRead.succeeds, hread, Scrape.error],
        by simp [hsample, Scrape.error]⟩
  | some n =>
      have hsample : EdacRead.sample fs (.counter path name labels) =
          some ⟨name, labels, float64 n⟩ := by
        rw [EdacRead.sample, hread]
        rfl
      exact ⟨by simp [hsample], by simp [EdacRead.succeeds, hread, Scrape.counter],
        by simp [hsample, Scrape.counter]⟩

variable {f : DirEntry → Scrape} {g : DirEntry → List EdacRead}

/-- A directory which cannot be listed is one failing read. -/
theorem makes_error (hdir : fs.readDir path = none) : Makes fs .error (listingReads fs path g) := by
  rw [listingReads, hdir]
  exact ⟨rfl, by simp [EdacRead.succeeds, hdir, Scrape.error], rfl⟩

/-- A directory which can be listed is one read, then the reads of its entries. -/
theorem makes_listing {entries : List DirEntry} (hdir : fs.readDir path = some entries)
    (h : ∀ e, Makes fs (f e) (g e)) : Makes fs (.each f entries) (listingReads fs path g) := by
  have hlisting : Makes fs .nothing [.listing path] :=
    ⟨rfl, by simp [EdacRead.succeeds, hdir, Scrape.nothing], rfl⟩
  have hall := hlisting.append (Makes.each h entries)
  have hskip : ∀ s : Scrape, Scrape.nothing ++ s = s := by
    intro s
    change (⟨[] ++ s.samples, 0 + s.errCount, 0 + s.successCount⟩ : Scrape) = s
    rw [List.nil_append, Nat.zero_add, Nat.zero_add]
  rw [hskip] at hall
  rw [listingReads, hdir]
  exact hall

/-- What is read of a channel's entry. -/
theorem makes_channel (mc csrowIdx : Text) (e : DirEntry) :
    Makes fs (edacChannel fs path mc csrowIdx e) (channelReads path mc csrowIdx e) := by
  unfold edacChannel channelReads
  cases reChFile.fullMatch e.name with
  | none => exact makes_nothing
  | some fm => exact makes_counterFile _ _

/-- What is read of a row's entry. -/
theorem makes_csrow (mc : Text) (e : DirEntry) :
    Makes fs (edacCsrow fs path mc e) (csrowReads fs path mc e) := by
  unfold edacCsrow csrowReads
  cases e.isDir with
  | false => exact makes_nothing
  | true =>
      cases reCsrowDir.fullMatch e.name with
      | none => exact makes_nothing
      | some cm =>
          simp only [Bool.not_true, Bool.false_eq_true, if_false, Option.toList_some,
            List.flatMap_cons, List.flatMap_nil, List.append_nil]
          refine (makes_counterFile _ _).append ?_
          split
          · exact makes_error ‹_›
          · exact makes_listing ‹_› (makes_channel mc (captured cm 1))

/-- What is read of a controller's entry. -/
theorem makes_controller (e : DirEntry) :
    Makes fs (edacController fs path e) (controllerReads fs path e) := by
  unfold edacController controllerReads
  cases e.isDir with
  | false => exact makes_nothing
  | true =>
      cases reMCDir.fullMatch e.name with
      | none => exact makes_nothing
      | some m =>
          simp only [Bool.not_true, Bool.false_eq_true, if_false, Option.toList_some,
            List.flatMap_cons, List.flatMap_nil, List.append_nil]
          refine ((makes_counterFile _ _).append (makes_counterFile _ _)).append ?_
          split
          · exact makes_error ‹_›
          · exact makes_listing ‹_› (makes_csrow e.name)

end Makes

/-! ### Which reads these are -/

section Members

variable {fs : FileSystem} {path root : Path} {mc csrowIdx : Text} {e : DirEntry} {r : EdacRead}

/-- The reads of a directory: its listing and those of its entries. -/
theorem mem_listingReads {f : DirEntry → List EdacRead} : r ∈ listingReads fs path f ↔
    r = .listing path ∨ ∃ e, Listed fs path e ∧ r ∈ f e := by
  unfold listingReads Listed
  cases fs.readDir path with
  | none => simp
  | some entries => simp

/-- The reads of a channel: its counter where the name matches. -/
theorem mem_channelReads : r ∈ channelReads path mc csrowIdx e ↔
    ∃ ch, Digits ch ∧ e.name = "ch".toList ++ ch ++ "_ce_count".toList ∧
      r = .counter (path ++ [e.name]) "edac_correctable_errors_total" [mc, csrowIdx, ch] := by
  simp only [channelReads, List.mem_map, Option.mem_toList, ← and_assoc, ← reChFile_eq_some_iff]
  constructor
  · intro ⟨fm, hfm, hr⟩
    exact ⟨captured fm 1, ⟨fm, hfm, rfl⟩, hr.symm⟩
  · intro ⟨ch, ⟨fm, hfm, hch⟩, hr⟩
    exact ⟨fm, hfm, hch ▸ hr.symm⟩

/-- The reads of a row: its counters and those of its channels. -/
theorem mem_csrowReads : r ∈ csrowReads fs path mc e ↔
    ∃ idx, e.isDir = true ∧ Digits idx ∧ e.name = "csrow".toList ++ idx ∧
      (r = .counter (path ++ [e.name, "ue_count".toList]) "edac_uncorrectable_errors_total"
          [mc, idx] ∨
        r ∈ listingReads fs (path ++ [e.name]) (channelReads (path ++ [e.name]) mc idx)) := by
  have hbelow : below (path ++ [e.name]) ["ue_count"] = path ++ [e.name, "ue_count".toList] := by
    simp [below]
  unfold csrowReads
  rw [hbelow]
  cases e.isDir with
  | false => simp
  | true =>
      simp only [Bool.not_true, Bool.false_eq_true, if_false, List.mem_flatMap, Option.mem_toList,
        List.mem_cons, true_and, ← and_assoc, ← reCsrowDir_eq_some_iff]
      constructor
      · intro ⟨cm, hcm, hr⟩
        exact ⟨captured cm 1, ⟨cm, hcm, rfl⟩, hr⟩
      · intro ⟨idx, ⟨cm, hcm, hidx⟩, hr⟩
        exact ⟨cm, hcm, hidx ▸ hr⟩

/-- The reads of a controller: its counters and those of its rows. -/
theorem mem_controllerReads : r ∈ controllerReads fs path e ↔
    e.isDir = true ∧ (∃ n, Digits n ∧ e.name = "mc".toList ++ n) ∧
      (r = .counter (path ++ [e.name, "ce_count".toList]) "edac_controller_ce_total" [e.name] ∨
        r = .counter (path ++ [e.name, "ue_count".toList]) "edac_controller_ue_total" [e.name] ∨
        r ∈ listingReads fs (path ++ [e.name]) (csrowReads fs (path ++ [e.name]) e.name)) := by
  have hbelow : ∀ file : String,
      below (path ++ [e.name]) [file] = path ++ [e.name, file.toList] := by
    simp [below]
  unfold controllerReads
  rw [hbelow, hbelow]
  cases e.isDir with
  | false => simp
  | true =>
      simp only [Bool.not_true, Bool.false_eq_true, if_false, List.mem_flatMap, Option.mem_toList,
        List.mem_cons, true_and, ← reMCDir_isSome_iff]
      constructor
      · intro ⟨m, hm, hr⟩
        exact ⟨⟨m, hm⟩, hr⟩
      · intro ⟨⟨m, hm⟩, hr⟩
        exact ⟨m, hm, hr⟩

/-- **The walk** makes the reads that the tree calls for. -/
theorem mem_edacReads : r ∈ edacReads fs root ↔ CallsFor fs root r := by
  have hpath : ∀ a b : Text, edacRoot root ++ [a] ++ [b] = edacRoot root ++ [a, b] := by simp
  constructor
  · intro h
    rcases mem_listingReads.mp h with rfl | ⟨⟨name, isDir⟩, hlisted, h⟩
    · exact .controllers
    obtain ⟨rfl, hname, h⟩ := mem_controllerReads.mp h
    have hmc : IsController fs root name := ⟨hname, hlisted⟩
    rcases h with rfl | rfl | h
    · exact .controllerCe hmc
    · exact .controllerUe hmc
    rcases mem_listingReads.mp h with rfl | ⟨⟨csrow, isDir⟩, hlisted, h⟩
    · exact .csrows hmc
    obtain ⟨idx, rfl, hidx, rfl, h⟩ := mem_csrowReads.mp h
    have hcsrow : IsCsrow fs root name idx := ⟨hmc, hidx, hlisted⟩
    rcases h with rfl | h
    · simpa using CallsFor.csrowUe hcsrow
    rcases mem_listingReads.mp h with rfl | ⟨⟨file, isDir⟩, hlisted, h⟩
    · simpa using CallsFor.channels hcsrow
    obtain ⟨ch, hch, rfl, rfl⟩ := mem_channelReads.mp h
    simpa using CallsFor.channelCe ⟨hcsrow, hch, isDir, hpath _ _ ▸ hlisted⟩
  · intro h
    have hcontroller : ∀ {mc}, IsController fs root mc → ∀ {r},
        r ∈ controllerReads fs (edacRoot root) ⟨mc, true⟩ → r ∈ edacReads fs root :=
      fun hmc _ hr => mem_listingReads.mpr (.inr ⟨_, hmc.2, hr⟩)
    have hcsrow : ∀ {mc idx}, IsCsrow fs root mc idx → ∀ {r},
        r ∈ csrowReads fs (edacRoot root ++ [mc]) mc ⟨"csrow".toList ++ idx, true⟩ →
          r ∈ edacReads fs root := by
      intro mc idx hidx r hr
      apply hcontroller hidx.1
      exact mem_controllerReads.mpr ⟨rfl, hidx.1.1,
        .inr (.inr (mem_listingReads.mpr (.inr ⟨_, hidx.2.2, hr⟩)))⟩
    cases h with
    | controllers => exact mem_listingReads.mpr (.inl rfl)
    | controllerCe h => exact hcontroller h (mem_controllerReads.mpr ⟨rfl, h.1, .inl rfl⟩)
    | controllerUe h => exact hcontroller h (mem_controllerReads.mpr ⟨rfl, h.1, .inr (.inl rfl)⟩)
    | csrows h =>
        exact hcontroller h (mem_controllerReads.mpr
          ⟨rfl, h.1, .inr (.inr (mem_listingReads.mpr (.inl rfl)))⟩)
    | csrowUe h =>
        exact hcsrow h (mem_csrowReads.mpr ⟨_, rfl, h.2.1, rfl, .inl (by simp)⟩)
    | channels h =>
        exact hcsrow h (mem_csrowReads.mpr
          ⟨_, rfl, h.2.1, rfl, .inr (mem_listingReads.mpr (.inl (by simp)))⟩)
    | channelCe h =>
        obtain ⟨hcs, hch, isDir, hlisted⟩ := h
        rw [← hpath] at hlisted
        exact hcsrow hcs (mem_csrowReads.mpr ⟨_, rfl, hcs.2.1, rfl, .inr (mem_listingReads.mpr
          (.inr ⟨_, hlisted, mem_channelReads.mpr ⟨_, hch, rfl, by simp⟩⟩))⟩)

end Members

/-! ### No file twice -/

section Paths

variable {fs : FileSystem} {path : Path} {mc csrowIdx : Text} {e : DirEntry}

/-- The reads of an entry are at its path or below it. -/
def Under (path : Path) (f : DirEntry → List EdacRead) : Prop :=
  ∀ e, ∀ r ∈ f e, path ++ [e.name] <+: r.path

/-- Every read of a directory is below it. -/
theorem under_listingReads {f : DirEntry → List EdacRead} (hf : Under path f) :
    ∀ r ∈ listingReads fs path f, path <+: r.path := by
  intro r hr
  rcases mem_listingReads.mp hr with rfl | ⟨e, _, hr⟩
  · exact List.prefix_refl _
  · exact (List.prefix_append _ _).trans (hf e r hr)

/-- Two entries with a path below both have the same name. -/
theorem name_unique {a b : Text} {whole : Path} (ha : path ++ [a] <+: whole)
    (hb : path ++ [b] <+: whole) : a = b := by
  have hsame : path ++ [a] = path ++ [b] :=
    (List.prefix_of_prefix_length_le ha hb (by simp)).eq_of_length (by simp)
  exact List.singleton_inj.mp (List.append_cancel_left hsame)

/-- A directory is read without reading a path twice. -/
theorem nodup_listingReads {f : DirEntry → List EdacRead} (hf : Under path f)
    (hnodup : ∀ e, ((f e).map EdacRead.path).Nodup) :
    ((listingReads fs path f).map EdacRead.path).Nodup := by
  rw [listingReads, List.map_cons, List.nodup_cons]
  constructor
  · intro hmem
    obtain ⟨r, hr, hpath⟩ := List.mem_map.mp hmem
    obtain ⟨e, _, hr⟩ := List.mem_flatMap.mp hr
    have hlength := (hf e r hr).length_le
    rw [hpath] at hlength
    simp [EdacRead.path] at hlength
  · rw [List.map_flatMap, List.nodup_flatMap]
    refine ⟨fun e _ => hnodup e, ?_⟩
    have hnames : (((fs.readDir path).getD []).map DirEntry.name).Nodup := by
      cases hdir : fs.readDir path with
      | none => exact List.nodup_nil
      | some entries => exact fs.nodup_names path entries hdir
    refine (List.pairwise_map.mp hnames).imp ?_
    intro a b hne whole ha hb
    obtain ⟨r, hr, rfl⟩ := List.mem_map.mp ha
    obtain ⟨r', hr', hpath⟩ := List.mem_map.mp hb
    exact hne (name_unique (hf a r hr) (hpath ▸ hf b r' hr'))

/-- A file of a directory is not read as an entry of it that has another name. -/
theorem not_mem_listingReads {f : DirEntry → List EdacRead} {name : Text} (hf : Under path f)
    (hname : ∀ e, f e ≠ [] → e.name ≠ name) :
    path ++ [name] ∉ (listingReads fs path f).map EdacRead.path := by
  intro hmem
  obtain ⟨r, hr, hpath⟩ := List.mem_map.mp hmem
  rcases mem_listingReads.mp hr with rfl | ⟨e, _, hr⟩
  · simpa [EdacRead.path] using congrArg List.length hpath
  · have hprefix := hf e r hr
    rw [hpath] at hprefix
    exact hname e (List.ne_nil_of_mem hr) (name_unique hprefix (List.prefix_refl _))

/-- A channel's reads are below its entry. -/
theorem under_channelReads : Under path (channelReads path mc csrowIdx) := by
  intro e r hr
  obtain ⟨_, _, _, rfl⟩ := mem_channelReads.mp hr
  exact List.prefix_refl _

/-- A row's reads are below its entry. -/
theorem under_csrowReads : Under path (csrowReads fs path mc) := by
  intro e r hr
  obtain ⟨idx, _, _, _, rfl | hr⟩ := mem_csrowReads.mp hr
  · exact ⟨["ue_count".toList], by simp [EdacRead.path]⟩
  · exact under_listingReads under_channelReads r hr

/-- A controller's reads are below its entry. -/
theorem under_controllerReads : Under path (controllerReads fs path) := by
  intro e r hr
  obtain ⟨_, _, rfl | rfl | hr⟩ := mem_controllerReads.mp hr
  · exact ⟨["ce_count".toList], by simp [EdacRead.path]⟩
  · exact ⟨["ue_count".toList], by simp [EdacRead.path]⟩
  · exact under_listingReads under_csrowReads r hr

/-- A channel is read without reading a path twice. -/
theorem nodup_channelReads : ((channelReads path mc csrowIdx e).map EdacRead.path).Nodup := by
  unfold channelReads
  cases reChFile.fullMatch e.name with
  | none => exact List.nodup_nil
  | some fm => exact List.nodup_singleton _

/-- A row is read without reading a path twice. -/
theorem nodup_csrowReads : ((csrowReads fs path mc e).map EdacRead.path).Nodup := by
  unfold csrowReads
  split
  · exact List.nodup_nil
  · cases reCsrowDir.fullMatch e.name with
    | none => exact List.nodup_nil
    | some cm =>
        rw [Option.toList_some, List.flatMap_singleton, List.map_cons, List.nodup_cons]
        refine ⟨?_, nodup_listingReads under_channelReads fun _ => nodup_channelReads⟩
        apply not_mem_listingReads under_channelReads
        intro f hf hname
        obtain ⟨r, hr⟩ := List.exists_mem_of_ne_nil _ hf
        obtain ⟨ch, _, hch, _⟩ := mem_channelReads.mp hr
        exact absurd (hch.symm.trans hname) (by simp)

/-- A controller is read without reading a path twice. -/
theorem nodup_controllerReads : ((controllerReads fs path e).map EdacRead.path).Nodup := by
  have hfile : ∀ file : String, file.toList.head? ≠ some 'c' ∨ file = "ce_count" →
      path ++ [e.name] ++ [file.toList] ∉ (listingReads fs (path ++ [e.name])
        (csrowReads fs (path ++ [e.name]) e.name)).map EdacRead.path := by
    intro file hfile
    apply not_mem_listingReads under_csrowReads
    intro f hf hname
    obtain ⟨r, hr⟩ := List.exists_mem_of_ne_nil _ hf
    obtain ⟨idx, _, _, hidx, _⟩ := mem_csrowReads.mp hr
    rw [← hname, hidx] at hfile
    rcases hfile with hhead | rfl
    · exact hhead rfl
    · exact absurd (hidx.symm.trans hname) (by simp)
  unfold controllerReads
  split
  · exact List.nodup_nil
  · cases reMCDir.fullMatch e.name with
    | none => exact List.nodup_nil
    | some m =>
        rw [Option.toList_some, List.flatMap_singleton, List.map_cons, List.nodup_cons,
          List.map_cons, List.nodup_cons]
        refine ⟨?_, hfile _ (.inl (by simp)),
          nodup_listingReads under_csrowReads fun _ => nodup_csrowReads⟩
        rw [List.mem_cons, not_or]
        refine ⟨?_, hfile _ (.inr rfl)⟩
        simp [EdacRead.path, below]

/-- No path is read twice. -/
theorem nodup_edacReads (root : Path) : ((edacReads fs root).map EdacRead.path).Nodup :=
  nodup_listingReads under_controllerReads fun _ => nodup_controllerReads

end Paths

/-- **A scrape of EDAC** makes the reads that the tree calls for, each of them once.  Its samples
are those of the counters which can be read, it is up exactly if there is one, and its errors are
the reads that fail. -/
theorem edacCollect_reads (fs : FileSystem) (root : Path) (duration : PyFloat) :
    ∃ reads : List EdacRead, (reads.map EdacRead.path).Nodup ∧
      (∀ r, r ∈ reads ↔ CallsFor fs root r) ∧
      edacCollect fs root duration = reads.filterMap (EdacRead.sample fs) ++
        collectorUp "edac" (if ∃ r ∈ reads, (r.sample fs).isSome then .fin 1 else .fin 0) ::
          emitSelf "edac" duration (reads.countP fun r => !r.succeeds fs) := by
  refine ⟨edacReads fs root, nodup_edacReads root, fun _ => mem_edacReads, ?_⟩
  have hroot : edacRoot root = below root ["devices", "system", "edac", "mc"] := rfl
  cases hdir : fs.readDir (edacRoot root) with
  | none =>
      have hreads : edacReads fs root = [.listing (edacRoot root)] := by
        rw [edacReads, listingReads, hdir]
        rfl
      rw [edacCollect, ← hroot, hdir, hreads]
      simp [EdacRead.sample, EdacRead.succeeds, hdir]
  | some entries =>
      have hcontroller : ∀ e, Makes fs (edacController fs (edacRoot root) e)
          (controllerReads fs (edacRoot root) e) := makes_controller
      have hmakes := makes_listing hdir hcontroller
      have hup : 0 < (Scrape.each (edacController fs (edacRoot root)) entries).successCount ↔
          ∃ r ∈ edacReads fs root, (r.sample fs).isSome := by
        rw [hmakes.successes, List.length_pos_iff_exists_mem]
        simp only [List.mem_filterMap, Option.isSome_iff_exists]
        constructor
        · intro h
          obtain ⟨sample, r, hr, hsample⟩ := h
          exact ⟨r, hr, sample, hsample⟩
        · intro h
          obtain ⟨r, hr, sample, hsample⟩ := h
          exact ⟨sample, r, hr, hsample⟩
      rw [edacCollect, ← hroot, hdir]
      simp only [hup, hmakes.samples, hmakes.errors]
      rfl

end FaultOracle.Exporter
