import FaultOracle.BacktrackingRegex
import FaultOracle.InsertionDict
import FaultOracle.ScrapeSamples

/-!
# The EDAC, machine check and PCIe AER collectors

`exporter/collectors/edac.go`, `mce.go` and `aer.go`: what one call of `Collect` sends.  A
collector reads names and counters of the host and puts the names, or parts of them, into the
labels of its samples.

The collectors range over Go maps in no particular order; the lists below have one of the
orders.
-/

namespace FaultOracle.Exporter

open BacktrackingRegex GoStrings InsertionDict PythonFloats

/-- A path below `SysfsRoot`. -/
def below (root : Path) (components : List String) : Path := root ++ components.map String.toList

/-- The counter in a file, or an error. -/
def counterFile (fs : FileSystem) (path : Path) (name : String) (labels : List Text) : Scrape :=
  match readUint64 fs path with
  | none => .error
  | some n => .counter name labels n

/-- What a group has captured. -/
def captured (m : Match) (n : Nat) : Text := (m.groups n).getD []

/-- `\w` of Go. -/
def isWord (c : Char) : Bool := c.isAlphanum || c == '_'

section Edac

open Re

/-- `^mc(\d+)$`. -/
def reMCDir : Re := lit "mc".toList ++ group 1 (plus Char.isDigit)

/-- `^csrow(\d+)$`. -/
def reCsrowDir : Re := lit "csrow".toList ++ group 1 (plus Char.isDigit)

/-- `^ch(\d+)_ce_count$`. -/
def reChFile : Re := lit "ch".toList ++ group 1 (plus Char.isDigit) ++ lit "_ce_count".toList

/-- A file of a csrow directory. -/
def edacChannel (fs : FileSystem) (csrowPath : Path) (mc csrowIdx : Text) (e : DirEntry) :
    Scrape :=
  match reChFile.fullMatch e.name with
  | none => .nothing
  | some fm =>
      counterFile fs (csrowPath ++ [e.name]) "edac_correctable_errors_total"
        [mc, csrowIdx, captured fm 1]

/-- An entry of a controller directory. -/
def edacCsrow (fs : FileSystem) (mcPath : Path) (mc : Text) (e : DirEntry) : Scrape :=
  if !e.isDir then .nothing
  else
    match reCsrowDir.fullMatch e.name with
    | none => .nothing
    | some cm =>
        let csrowIdx := captured cm 1
        let csrowPath := mcPath ++ [e.name]
        counterFile fs (below csrowPath ["ue_count"]) "edac_uncorrectable_errors_total"
            [mc, csrowIdx] ++
          match fs.readDir csrowPath with
          | none => .error
          | some chEntries => .each (edacChannel fs csrowPath mc csrowIdx) chEntries

/-- An entry of the root of the memory controllers. -/
def edacController (fs : FileSystem) (mcRoot : Path) (e : DirEntry) : Scrape :=
  if !e.isDir then .nothing
  else
    match reMCDir.fullMatch e.name with
    | none => .nothing
    | some _ =>
        let mcPath := mcRoot ++ [e.name]
        counterFile fs (below mcPath ["ce_count"]) "edac_controller_ce_total" [e.name] ++
          counterFile fs (below mcPath ["ue_count"]) "edac_controller_ue_total" [e.name] ++
          match fs.readDir mcPath with
          | none => .error
          | some csrowEntries => .each (edacCsrow fs mcPath e.name) csrowEntries

/-- `EDACCollector.Collect`. -/
def edacCollect (fs : FileSystem) (root : Path) (duration : PyFloat) : List Sample :=
  let mcRoot := below root ["devices", "system", "edac", "mc"]
  match fs.readDir mcRoot with
  | none => collectorUp "edac" (.fin 0) :: emitSelf "edac" duration 1
  | some mcDirs =>
      let scrape := Scrape.each (edacController fs mcRoot) mcDirs
      let upVal := if 0 < scrape.successCount then .fin 1 else .fin 0
      scrape.samples ++ collectorUp "edac" upVal :: emitSelf "edac" duration scrape.errCount

end Edac

/-! ## Machine check events -/

/-- `mceEvent`. -/
structure MceEvent where
  severity : Text
  bank : Text
  source : String
  count : Nat

/-- `severityFiles`. -/
def severityFiles : List (Text × Text) :=
  [("corrected".toList, "corrected_errors".toList), ("deferred".toList, "deferred_errors".toList),
    ("uncorrected".toList, "uncorrected_errors".toList)]

/-- `scrapeGHES`. -/
def scrapeGHES (fs : FileSystem) (root : Path) : Option (List MceEvent) :=
  let ghesPath := below root ["firmware", "acpi", "errors"]
  (fs.readDir ghesPath).map fun _ =>
    severityFiles.filterMap fun item =>
      (readUint64 fs (ghesPath ++ [item.2])).map fun count =>
        ⟨item.1, "unknown".toList, "ghes", count⟩

/-- `[0-9a-fA-F]`. -/
def isHex (c : Char) : Bool :=
  c.isDigit || ('a' ≤ c && c ≤ 'f') || ('A' ≤ c && c ≤ 'F')

/-- `strconv.ParseUint(s, 16, 64)` of hexadecimal digits. -/
def parseHex (digits : Text) : Option Nat :=
  let value := digits.foldl (fun n c =>
    16 * n + if c.isDigit then c.toNat - '0'.toNat else c.toLower.toNat - 'a'.toNat + 10) 0
  if value < 2 ^ 64 then some value else none

/-- `reBank`. -/
def reBank : Re := Re.lit "BANK ".toList ++ .group 1 (Re.plus Char.isDigit)

/-- `reStatus`. -/
def reStatus : Re := Re.lit "STATUS 0x".toList ++ .group 1 (Re.plus isHex)

/-- `decodeMCESeverity`. -/
def decodeMCESeverity (status : Nat) : Text :=
  if status.testBit 57 then "panic".toList
  else if status.testBit 61 then "uncorrected".toList
  else "corrected".toList

/-- The bank named last, and the events counted so far by bank and severity. -/
structure McelogScan where
  currentBank : Text
  counts : List ((Text × Text) × Nat)

/-- The bank after a line, which may name one. -/
def bankAfter (currentBank line : Text) : Text :=
  match reBank.search line with
  | some m => captured m 1
  | none => currentBank

/-- The event of a line with a status, once a bank is known. -/
def countStatus (currentBank line : Text) (counts : List ((Text × Text) × Nat)) :
    List ((Text × Text) × Nat) :=
  match reStatus.search line with
  | none => counts
  | some m =>
      if currentBank = [] then counts
      else
        match parseHex (captured m 1) with
        | none => counts
        | some status =>
            let k := (currentBank, decodeMCESeverity status)
            setItem k ((counts.lookup k).getD 0 + 1) counts

/-- A line of the log. -/
def mcelogLine (s : McelogScan) (line : Text) : McelogScan where
  currentBank := bankAfter s.currentBank line
  counts := countStatus (bankAfter s.currentBank line) line s.counts

/-- `scrapeMcelog`. -/
def scrapeMcelog (fs : FileSystem) : Option (List MceEvent) :=
  match (fs.readFile (below [] ["dev", "mcelog"])).map scanLines with
  | none => none
  | some scan =>
      if scan.tooLong then none
      else
        some ((scan.lines.foldl mcelogLine ⟨[], []⟩).counts.map fun item =>
          ⟨item.1.2, item.1.1, "mcelog", item.2⟩)

/-- `^(\w+)_count$`. -/
def reCounter : Re := .group 1 (Re.plus isWord) ++ Re.lit "_count".toList

/-- `^(\w+)_bank(\d+)_count$`. -/
def reBankCounter : Re :=
  .group 1 (Re.plus isWord) ++ Re.lit "_bank".toList ++ .group 2 (Re.plus Char.isDigit) ++
    Re.lit "_count".toList

/-- The severity and the bank in the name of a counter file. -/
def rasLabels (name : Text) : Option (Text × Text) :=
  (reCounter.fullMatch name).map fun m =>
    match reBankCounter.fullMatch name with
    | some bm => (captured bm 1, captured bm 2)
    | none => (captured m 1, "all".toList)

/-- `scrapeRASCounters`. -/
def scrapeRASCounters (fs : FileSystem) : Option (List MceEvent) :=
  let rasCounterDir := below [] ["var", "lib", "rasdaemon"]
  (fs.readDir rasCounterDir).map fun entries =>
    entries.filterMap fun e => do
      let (severity, bank) ← rasLabels e.name
      let count ← readUint64 fs (rasCounterDir ++ [e.name])
      return ⟨severity, bank, "rasdaemon", count⟩

/-- The events of the first source that has any. -/
def mceEvents (fs : FileSystem) (root : Path) : List MceEvent :=
  let ghes := (scrapeGHES fs root).getD []
  if ghes ≠ [] then ghes
  else
    let mcelog := (scrapeMcelog fs).getD []
    if mcelog ≠ [] then mcelog else (scrapeRASCounters fs).getD []

/-- The sample of an event. -/
def mceSample (ev : MceEvent) : Sample :=
  ⟨"mce_events_total", [ev.severity, ev.bank, ev.source.toList], float64 ev.count⟩

/-- `MCECollector.Collect`. -/
def mceCollect (fs : FileSystem) (root : Path) (duration : PyFloat) : List Sample :=
  let events := mceEvents fs root
  let available : PyFloat := if events ≠ [] then .fin 1 else .fin 0
  let errCount := if events ≠ [] then 0 else 1
  events.map mceSample ++ ⟨"mce_available", [], available⟩ :: collectorUp "mce" available ::
    emitSelf "mce" duration errCount

/-! ## PCIe AER -/

/-- A line of an AER file. -/
def aerLine (result : List (Text × Nat)) (line : Text) : List (Text × Nat) :=
  match fields (trimSpace line) with
  | [name, countText] =>
      match parseUint countText with
      | some count => setItem name count result
      | none => result
  | _ => result

/-- `parseAERFile`, of what the file holds. -/
def parseAERFile (text : Text) : Option (List (Text × Nat)) :=
  let scan := scanLines text
  if scan.tooLong then none else some (scan.lines.foldl aerLine [])

/-- A file of error counts, without its total. -/
def aerFile (fs : FileSystem) (path : Path) (total : String) (name : String)
    (labels : Text → List Text) : Scrape :=
  match (fs.readFile path).bind parseAERFile with
  | none => .error
  | some counts =>
      ⟨(counts.filter fun item => item.1 ≠ total.toList).map fun item =>
        ⟨name, labels item.1, float64 item.2⟩, 0, 0⟩

/-- An uncorrectable error file, read if it is there. -/
def aerUncorrectable (fs : FileSystem) (devPath : Path) (bdf : Text) (file : String)
    (severity : String) : Scrape :=
  if fs.stat (below devPath [file]) = .found then
    aerFile fs (below devPath [file]) "TOTAL_ERR_UNCOR" "pcie_aer_uncorrectable_total"
      fun errType => [bdf, errType, severity.toList]
  else .nothing

/-- A device with the AER capability. -/
def aerDevice (fs : FileSystem) (devRoot : Path) (e : DirEntry) : Scrape :=
  let devPath := devRoot ++ [e.name]
  aerFile fs (below devPath ["aer_dev_correctable"]) "TOTAL_ERR_COR" "pcie_aer_correctable_total"
      (fun errType => [e.name, errType]) ++
    aerUncorrectable fs devPath e.name "aer_dev_nonfatal" "nonfatal" ++
    aerUncorrectable fs devPath e.name "aer_dev_fatal" "fatal"

/-- Whether an entry is a device with the AER capability. -/
def hasAER (fs : FileSystem) (devRoot : Path) (e : DirEntry) : Bool :=
  e.isDir && fs.stat (below (devRoot ++ [e.name]) ["aer_dev_correctable"]) ≠ .notExist

/-- `AERCollector.Collect`. -/
def aerCollect (fs : FileSystem) (root : Path) (duration : PyFloat) : List Sample :=
  let devRoot := below root ["bus", "pci", "devices"]
  match fs.readDir devRoot with
  | none => collectorUp "aer" (.fin 0) :: emitSelf "aer" duration 1
  | some entries =>
      let devices := entries.filter (hasAER fs devRoot)
      let scrape := Scrape.each (aerDevice fs devRoot) devices
      scrape.samples ++ ⟨"pcie_aer_devices_total", [], float64 devices.length⟩ ::
        collectorUp "aer" (.fin 1) :: emitSelf "aer" duration scrape.errCount

end FaultOracle.Exporter
