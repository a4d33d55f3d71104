import Mathlib.Data.List.Nodup
import FaultOracle.GoStrings
import FaultOracle.PythonFloats

/-!
# Samples of a scrape

What the collectors of the exporter share: the files they read, the samples they send, and
the metrics every one of them emits about itself (`exporter/collectors/shared.go`).

The host is given by what its system calls answer.  Nothing is assumed about it but that a
directory does not list a name twice.
-/

namespace FaultOracle.Exporter

open GoStrings PythonFloats

abbrev Text := List Char

/-- The components of an absolute path. -/
abbrev Path := List Text

/-- `os.DirEntry`. -/
structure DirEntry where
  name : Text
  isDir : Bool

/-- What `os.Stat` finds. -/
inductive StatResult
  | found
  | notExist
  | failed
deriving DecidableEq

/-- The files of the host; `none` is an error. -/
structure FileSystem where
  readDir : Path → Option (List DirEntry)
  readFile : Path → Option Text
  stat : Path → StatResult
  nodup_names : ∀ path entries, readDir path = some entries →
    (entries.map DirEntry.name).Nodup

/-- `prometheus.Metric`: a sample with the values of its labels. -/
structure Sample where
  name : String
  labels : List Text
  value : PyFloat

/-- What a sample is told apart by. -/
def Sample.series (s : Sample) : String × List Text := (s.name, s.labels)

/-- `float64(n)`. -/
def float64 (n : Nat) : PyFloat := toDouble n

/-- `readUint64`. -/
def readUint64 (fs : FileSystem) (path : Path) : Option Nat := do
  let text ← fs.readFile path
  let line ← (scanLines text).lines.head?
  parseUint (trimSpace line)

/-- The sample of `collectorUpDesc`. -/
def collectorUp (collector : String) (value : PyFloat) : Sample where
  name := "fault_resilience_collector_up"
  labels := [collector.toList]
  value := value

/-- `emitSelf`. -/
def emitSelf (collector : String) (duration : PyFloat) (errCount : Nat) : List Sample :=
  [⟨"hw_fault_exporter_scrape_duration_seconds", [collector.toList], duration⟩,
    ⟨"hw_fault_exporter_scrape_errors_total", [collector.toList], float64 errCount⟩]

/-- What a part of a scrape adds to it: samples, errors, and files read with success. -/
structure Scrape where
  samples : List Sample
  errCount : Nat
  successCount : Nat

/-- One part of a scrape after the other. -/
def Scrape.append (a b : Scrape) : Scrape where
  samples := a.samples ++ b.samples
  errCount := a.errCount + b.errCount
  successCount := a.successCount + b.successCount

instance : Append Scrape := ⟨Scrape.append⟩

/-- Nothing read. -/
def Scrape.nothing : Scrape := ⟨[], 0, 0⟩

/-- A file that cannot be read. -/
def Scrape.error : Scrape := ⟨[], 1, 0⟩

/-- A counter read with success. -/
def Scrape.counter (name : String) (labels : List Text) (value : Nat) : Scrape :=
  ⟨[⟨name, labels, float64 value⟩], 0, 1⟩

/-- A loop over directory entries or devices. -/
def Scrape.each {α : Type} (f : α → Scrape) (xs : List α) : Scrape :=
  (xs.map f).foldl (· ++ ·) .nothing

@[simp] theorem Scrape.samples_append (a b : Scrape) :
    (a ++ b).samples = a.samples ++ b.samples := rfl

/-- Doing nothing gives no sample. -/
@[simp] theorem Scrape.samples_nothing : Scrape.nothing.samples = [] := rfl

/-- An error gives no sample. -/
@[simp] theorem Scrape.samples_error : Scrape.error.samples = [] := rfl

/-- A counter gives one sample. -/
@[simp] theorem Scrape.samples_counter (name : String) (labels : List Text) (value : Nat) :
    (Scrape.counter name labels value).samples = [⟨name, labels, float64 value⟩] := rfl

/-- The samples of an action for each entry. -/
@[simp] theorem Scrape.samples_each {α : Type} (f : α → Scrape) (xs : List α) :
    (Scrape.each f xs).samples = xs.flatMap fun x => (f x).samples := by
  have hfold : ∀ (parts : List Scrape) (first : Scrape),
      (parts.foldl (· ++ ·) first).samples = first.samples ++ parts.flatMap Scrape.samples := by
    intro parts
    induction parts with
    | nil => simp
    | cons part parts ih =>
        intro first
        simp [ih]
  rw [Scrape.each, hfold, List.flatMap_map]
  rfl

/-! ## Series -/

/-- No two samples of one series. -/
def Distinct (samples : List Sample) : Prop := (samples.map Sample.series).Nodup

instance (samples : List Sample) : Decidable (Distinct samples) :=
  inferInstanceAs (Decidable (List.Nodup _))

theorem distinct_append {a b : List Sample} :
    Distinct (a ++ b) ↔
      Distinct a ∧ Distinct b ∧ ∀ s ∈ a, ∀ t ∈ b, s.series ≠ t.series := by
  simp only [Distinct, List.map_append, List.nodup_append, List.mem_map]
  constructor
  · intro ⟨ha, hb, hab⟩
    exact ⟨ha, hb, fun s hs t ht => hab _ ⟨s, hs, rfl⟩ _ ⟨t, ht, rfl⟩⟩
  · intro ⟨ha, hb, hab⟩
    refine ⟨ha, hb, ?_⟩
    intro _ hs _ ht
    obtain ⟨s, hs, rfl⟩ := hs
    obtain ⟨t, ht, rfl⟩ := ht
    exact hab s hs t ht

theorem distinct_nil : Distinct [] := List.nodup_nil

/-- One sample is distinct. -/
theorem distinct_singleton (s : Sample) : Distinct [s] := List.nodup_singleton _

/-- A loop sends no series twice if no turn does and no two turns share one. -/
theorem distinct_flatMap_iff {α : Type} {f : α → List Sample} {xs : List α} :
    Distinct (xs.flatMap f) ↔ (∀ x ∈ xs, Distinct (f x)) ∧
      xs.Pairwise fun a b => ∀ s ∈ f a, ∀ t ∈ f b, s.series ≠ t.series := by
  induction xs with
  | nil => simp [distinct_nil]
  | cons x xs ih =>
      rw [List.flatMap_cons, distinct_append, ih, List.pairwise_cons, List.forall_mem_cons]
      constructor
      · intro ⟨hx, ⟨hxs, hpairs⟩, hfirst⟩
        refine ⟨⟨hx, hxs⟩, ?_, hpairs⟩
        intro y hy s hs t ht
        exact hfirst s hs t (List.mem_flatMap.mpr ⟨y, hy, ht⟩)
      · intro ⟨⟨hx, hxs⟩, hfirst, hpairs⟩
        refine ⟨hx, ⟨hxs, hpairs⟩, ?_⟩
        intro s hs t ht
        obtain ⟨y, hy, ht⟩ := List.mem_flatMap.mp ht
        exact hfirst y hy s hs t ht

/-- A loop sends no series twice if a sample tells the turn it comes from. -/
theorem distinct_flatMap {α β : Type} {f : α → List Sample} {xs : List α} (turn : α → β)
    (tag : String × List Text → β) (hxs : (xs.map turn).Nodup)
    (hf : ∀ x ∈ xs, Distinct (f x))
    (htag : ∀ x ∈ xs, ∀ s ∈ f x, tag s.series = turn x) : Distinct (xs.flatMap f) := by
  refine distinct_flatMap_iff.mpr ⟨hf, (List.pairwise_map.mp hxs).imp_of_mem ?_⟩
  intro x y hx hy hne s hs t ht heq
  apply hne
  rw [← htag x hx s hs, ← htag y hy t ht, heq]

/-- Samples whose series tell their turns are distinct when the turns are. -/
theorem distinct_filterMap {α β : Type} {f : α → Option Sample} {xs : List α} (turn : α → β)
    (tag : String × List Text → β) (hxs : (xs.map turn).Nodup)
    (htag : ∀ x ∈ xs, ∀ s ∈ f x, tag s.series = turn x) : Distinct (xs.filterMap f) := by
  rw [List.filterMap_eq_flatMap_toList]
  refine distinct_flatMap turn tag hxs ?_ fun x hx s hs => htag x hx s (by simpa using hs)
  intro x _
  cases f x with
  | none => exact distinct_nil
  | some s => exact distinct_singleton s

end FaultOracle.Exporter
