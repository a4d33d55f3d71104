import Mathlib.Algebra.Order.Ring.Rat
import Mathlib.Data.Int.Bitwise
import Mathlib.Data.List.Dedup
import Mathlib.Tactic.Linarith
import FaultOracle.KeyedFolds
import FaultOracle.ListPairs
import FaultOracle.PythonFloats

/-!
# The bit-flip analyzer

`ml/bitflip_analyzer.py`: correctable errors are read for patterns of their syndromes and of
their pages.

The search for hammered rows sorts the events of each channel by their time and leaves off, for
each event, at the first one that is too late for it.  `diagnoses_complete`: it finds the pairs
that a look at all pairs would find, each once, and every page which has an event is diagnosed.

Times are seconds.
-/

namespace FaultOracle.Bitflips

open InsertionDict ListPairs

inductive Pattern
  | stuckBit
  | rowHammer
  | randomSeu
  | multiBit
deriving DecidableEq, Repr

structure CEEvent where
  page : Int
  offset : Int
  syndrome : Int
  timestamp : ℚ
  controller : String
  csrow : Int
  channel : Int
deriving DecidableEq, Repr

/-- A diagnosis; the confidence is the decimal which the source gives. -/
structure BitflipDiagnosis where
  page : Int
  pattern : Pattern
  bitPositions : List Nat
  confidence : ℚ
  recommendation : String
deriving DecidableEq, Repr

/-! ## The analysis -/

/-- `_bit_positions`. -/
def bitPositions (syndrome : Int) : List Nat := (List.range 64).filter syndrome.testBit

/-- `sorted(set(bits))`. -/
def sortedSet (bits : List Nat) : List Nat := bits.dedup.insertionSort (· ≤ ·)

/-- What is said of a pair of hammered rows; `a` is the earlier event. -/
def rowHammer (a b : CEEvent) : BitflipDiagnosis where
  page := a.page
  pattern := .rowHammer
  bitPositions := sortedSet (bitPositions a.syndrome ++ bitPositions b.syndrome)
  confidence := 3 / 4
  recommendation := "Remap adjacent rows; schedule DIMM replacement"

/-- The rows are neighbours, and the pages are not the same. -/
def Adjacent (a b : CEEvent) : Prop := |a.csrow - b.csrow| = 1 ∧ a.page ≠ b.page

instance (a b : CEEvent) : Decidable (Adjacent a b) := inferInstanceAs (Decidable (_ ∧ _))

/-- The literal `0.064`, as the double which it is: a little more than 64 ms. -/
def hammerWindow : ℚ := 1152921504606847 / 18014398509481984

example : PythonFloats.toDouble (64 / 1000) = .fin hammerWindow := by decide +kernel

/-- The loop over `j`. -/
def scanFrom (a : CEEvent) : List CEEvent → List BitflipDiagnosis
  | [] => []
  | b :: rest =>
      if b.timestamp - a.timestamp > hammerWindow then []
      else (if Adjacent a b then [rowHammer a b] else []) ++ scanFrom a rest

/-- The loop over `i`. -/
def scan : List CEEvent → List BitflipDiagnosis
  | [] => []
  | a :: rest => scanFrom a rest ++ scan rest

def CEEvent.key (e : CEEvent) : String × Int := (e.controller, e.channel)

/-- `by_controller`. -/
def byController (events : List CEEvent) : List ((String × Int) × List CEEvent) :=
  collect CEEvent.key (fun e => [e]) events

/-- `_check_row_hammer`. -/
def checkRowHammer (events : List CEEvent) : List BitflipDiagnosis :=
  (byController events).flatMap fun item =>
    scan (item.2.insertionSort fun a b => a.timestamp ≤ b.timestamp)

def multiBit (e : CEEvent) : Option BitflipDiagnosis :=
  let bits := bitPositions e.syndrome
  if bits.length > 1 then
    some
      { page := e.page
        pattern := .multiBit
        bitPositions := bits
        confidence := 95 / 100
        recommendation := "Offline DIMM immediately; imminent UE risk" }
  else none

/-- `page_bits`. -/
def pageBits (events : List CEEvent) : List (Int × List Nat) :=
  collect CEEvent.page (fun e => bitPositions e.syndrome) events

/-- The bits which are there more than five times. -/
def stuckBits (bits : List Nat) : List Nat :=
  (bits.foldl bump []).filterMap fun item => if item.2 > 5 then some item.1 else none

def stuckBit (item : Int × List Nat) : Option BitflipDiagnosis :=
  if stuckBits item.2 ≠ [] then
    some
      { page := item.1
        pattern := .stuckBit
        bitPositions := (stuckBits item.2).insertionSort (· ≤ ·)
        confidence := 9 / 10
        recommendation := "Page offline; permanent cell damage" }
  else none

def randomSeu (item : Int × List Nat) : BitflipDiagnosis where
  page := item.1
  pattern := .randomSeu
  bitPositions := sortedSet item.2
  confidence := 6 / 10
  recommendation := "No action; cosmic ray / alpha particle"

/-- The diagnoses but those of random upsets. -/
def patterned (events : List CEEvent) : List BitflipDiagnosis :=
  events.filterMap multiBit ++ (pageBits events).filterMap stuckBit ++ checkRowHammer events

/-- `analyze_bitflips`. -/
def analyzeBitflips (events : List CEEvent) : List BitflipDiagnosis :=
  if events = [] then []
  else
    let results := patterned events
    results ++ ((pageBits events).filter fun item =>
      !((results.map BitflipDiagnosis.page).contains item.1)).map randomSeu

/-! ## All pairs -/

/-- Two events of neighbouring rows of a channel, on different pages, and close in time. -/
def Hammered (x y : CEEvent) : Prop :=
  x.controller = y.controller ∧ x.channel = y.channel ∧ |x.csrow - y.csrow| = 1 ∧
    x.page ≠ y.page ∧ |x.timestamp - y.timestamp| ≤ hammerWindow

instance (x y : CEEvent) : Decidable (Hammered x y) := inferInstanceAs (Decidable (_ ∧ _))

/-- All pairs of hammered rows. -/
def hammeredPairs (events : List CEEvent) : List (CEEvent × CEEvent) :=
  (pairs events).filter fun p => Hammered p.1 p.2

/-- The diagnosis of a pair: the earlier event comes first, and of two at the same time the one
that is listed first. -/
def pairDiagnosis (p : CEEvent × CEEvent) : BitflipDiagnosis :=
  if p.1.timestamp ≤ p.2.timestamp then rowHammer p.1 p.2 else rowHammer p.2 p.1

section Scan

variable {events : List CEEvent} {a : CEEvent}

theorem scanFrom_eq (a : CEEvent) (rest : List CEEvent) :
    scanFrom a rest =
      ((rest.takeWhile fun b => decide (b.timestamp - a.timestamp ≤ hammerWindow)).filter
        fun b => Adjacent a b).map (rowHammer a) := by
  induction rest with
  | nil => rfl
  | cons b rest ih =>
      rw [scanFrom]
      by_cases hlate : b.timestamp - a.timestamp > hammerWindow
      · rw [if_pos hlate, List.takeWhile_cons, decide_eq_false (not_le.mpr hlate)]
        rfl
      · rw [if_neg hlate, List.takeWhile_cons, decide_eq_true (not_lt.mp hlate), if_pos rfl, ih]
        by_cases hadj : Adjacent a b
        · simp [hadj]
        · simp [hadj]

/-- **The scan** of events in the order of time finds its pairs among all pairs. -/
theorem scan_eq (h : events.Pairwise fun a b => a.timestamp ≤ b.timestamp) :
    scan events = ((pairs events).filter fun p =>
      decide (p.2.timestamp - p.1.timestamp ≤ hammerWindow ∧ Adjacent p.1 p.2)).map
        fun p => rowHammer p.1 p.2 := by
  induction events with
  | nil => rfl
  | cons a rest ih =>
      obtain ⟨_, hrest⟩ := List.pairwise_cons.mp h
      have hwithin : rest.Pairwise fun b c =>
          decide (c.timestamp - a.timestamp ≤ hammerWindow) = true →
            decide (b.timestamp - a.timestamp ≤ hammerWindow) = true := by
        refine hrest.imp fun {b c} hbc hc => ?_
        simp only [decide_eq_true_eq] at hc ⊢
        linarith
      rw [scan, scanFrom_eq, takeWhile_eq_filter hwithin, ih hrest, pairs, List.filter_append,
        List.map_append, List.filter_map, List.map_map, List.filter_filter]
      congr 2
      refine List.filter_congr fun b _ => ?_
      rw [Function.comp_apply, Bool.decide_and, Bool.and_comm]

/-- What is found in the sorted events of one channel. -/
theorem perm_scan_sorted (group : List CEEvent) :
    (scan (group.insertionSort fun a b => a.timestamp ≤ b.timestamp)).Perm
      (((pairs group).filter fun p => decide (|p.1.timestamp - p.2.timestamp| ≤ hammerWindow ∧
        Adjacent p.1 p.2)).map pairDiagnosis) := by
  have htrans : IsTrans CEEvent fun a b => a.timestamp ≤ b.timestamp :=
    ⟨fun _ _ _ hab hbc => le_trans hab hbc⟩
  have htotal : Std.Total fun a b : CEEvent => a.timestamp ≤ b.timestamp :=
    ⟨fun _ _ => le_total _ _⟩
  rw [scan_eq (List.pairwise_insertionSort _ _)]
  refine (((pairs_insertionSort _ group).filter _).map _).trans (List.Perm.of_eq ?_)
  rw [List.filter_map, List.map_map]
  have hkept : ∀ p : CEEvent × CEEvent,
      ((inOrder (fun a b : CEEvent => a.timestamp ≤ b.timestamp) p).2.timestamp -
          (inOrder (fun a b : CEEvent => a.timestamp ≤ b.timestamp) p).1.timestamp ≤ hammerWindow ∧
        Adjacent (inOrder (fun a b : CEEvent => a.timestamp ≤ b.timestamp) p).1
          (inOrder (fun a b : CEEvent => a.timestamp ≤ b.timestamp) p).2) ↔
      |p.1.timestamp - p.2.timestamp| ≤ hammerWindow ∧ Adjacent p.1 p.2 := by
    intro p
    unfold inOrder
    by_cases hle : p.1.timestamp ≤ p.2.timestamp
    · rw [if_pos hle, abs_sub_comm, abs_of_nonneg (sub_nonneg.mpr hle)]
    · have hlt := not_le.mp hle
      rw [if_neg hle, abs_of_pos (sub_pos.mpr hlt)]
      simp only [Prod.fst_swap, Prod.snd_swap, Adjacent, abs_sub_comm p.2.csrow, ne_comm]
  have hdiagnosis : ((fun p : CEEvent × CEEvent => rowHammer p.1 p.2) ∘
      inOrder fun a b : CEEvent => a.timestamp ≤ b.timestamp) = pairDiagnosis := by
    funext p
    unfold inOrder pairDiagnosis
    by_cases hle : p.1.timestamp ≤ p.2.timestamp
    · simp [hle]
    · simp [hle]
  rw [hdiagnosis]
  congr 1
  exact List.filter_congr fun p _ => decide_eq_decide.mpr (hkept p)

/-- **All pairs**: the search finds the hammered ones, each once. -/
theorem perm_checkRowHammer (events : List CEEvent) :
    (checkRowHammer events).Perm ((hammeredPairs events).map pairDiagnosis) := by
  have hgroups : byController events = (events.map CEEvent.key).eraseDups.map fun k =>
      (k, events.filter fun e => e.key == k) := by
    rw [byController, collect_eq]
    simp only [List.flatMap_singleton']
  have hkeys : ∀ e ∈ events, e.key ∈ (events.map CEEvent.key).eraseDups := fun e he =>
    List.mem_eraseDups.mpr (List.mem_map_of_mem he)
  have hclasses := pairs_classes (nodup_eraseDups (events.map CEEvent.key)) hkeys
  have hfound := (hclasses.filter fun p => decide (|p.1.timestamp - p.2.timestamp| ≤ hammerWindow ∧
    Adjacent p.1 p.2)).map pairDiagnosis
  rw [checkRowHammer, hgroups, List.flatMap_map]
  refine (List.Perm.flatMap_left _ fun k _ => perm_scan_sorted _).trans ?_
  rw [List.filter_flatMap, List.map_flatMap, List.filter_filter] at hfound
  refine hfound.trans (List.Perm.of_eq ?_)
  rw [hammeredPairs]
  congr 1
  refine List.filter_congr fun p _ => ?_
  have hkey : (p.1.key == p.2.key) =
      decide (p.1.controller = p.2.controller ∧ p.1.channel = p.2.channel) :=
    Bool.eq_iff_iff.mpr (by simp [CEEvent.key])
  rw [hkey, ← Bool.decide_and]
  refine decide_eq_decide.mpr ?_
  unfold Hammered Adjacent
  tauto

/-! ## Pages -/

theorem mem_pageBits_pages {page : Int} :
    page ∈ (pageBits events).map Prod.fst ↔ ∃ e ∈ events, e.page = page := by
  rw [pageBits, collect_eq, List.map_map]
  simp

theorem of_multiBit {e : CEEvent} {d : BitflipDiagnosis} (h : multiBit e = some d) :
    d.page = e.page ∧ d.pattern = .multiBit := by
  unfold multiBit at h
  obtain ⟨_, h⟩ := Option.ite_none_right_eq_some.mp h
  rw [← Option.some.inj h]
  exact ⟨rfl, rfl⟩

theorem of_stuckBit {item : Int × List Nat} {d : BitflipDiagnosis} (h : stuckBit item = some d) :
    d.page = item.1 ∧ d.pattern = .stuckBit := by
  unfold stuckBit at h
  obtain ⟨_, h⟩ := Option.ite_none_right_eq_some.mp h
  rw [← Option.some.inj h]
  exact ⟨rfl, rfl⟩

/-- A diagnosis of a pattern is about the page of an event. -/
theorem page_of_patterned {d : BitflipDiagnosis} (h : d ∈ patterned events) :
    ∃ e ∈ events, e.page = d.page := by
  rw [patterned, List.mem_append, List.mem_append] at h
  rcases h with (h | h) | h
  · obtain ⟨e, he, hd⟩ := List.mem_filterMap.mp h
    exact ⟨e, he, (of_multiBit hd).1.symm⟩
  · obtain ⟨item, hitem, hd⟩ := List.mem_filterMap.mp h
    rw [(of_stuckBit hd).1]
    exact mem_pageBits_pages.mp (List.mem_map_of_mem hitem)
  · obtain ⟨p, hp, rfl⟩ := List.mem_map.mp ((perm_checkRowHammer events).mem_iff.mp h)
    obtain ⟨hfst, hsnd⟩ := mem_of_mem_pairs (List.mem_filter.mp hp).1
    unfold pairDiagnosis
    split
    · exact ⟨p.1, hfst, rfl⟩
    · exact ⟨p.2, hsnd, rfl⟩

/-- **Pages**: those which have an event are diagnosed, and no others. -/
theorem exists_diagnosis_iff (events : List CEEvent) (page : Int) :
    (∃ d ∈ analyzeBitflips events, d.page = page) ↔ ∃ e ∈ events, e.page = page := by
  by_cases hnil : events = []
  · simp [analyzeBitflips, hnil]
  rw [analyzeBitflips, if_neg hnil]
  constructor
  · intro h
    obtain ⟨d, hd, rfl⟩ := h
    rcases List.mem_append.mp hd with hd | hd
    · exact page_of_patterned hd
    · obtain ⟨item, hitem, rfl⟩ := List.mem_map.mp hd
      exact mem_pageBits_pages.mp (List.mem_map_of_mem (List.mem_filter.mp hitem).1)
  · intro h
    by_cases hpatterned : page ∈ (patterned events).map BitflipDiagnosis.page
    · obtain ⟨d, hd, hpage⟩ := List.mem_map.mp hpatterned
      exact ⟨d, List.mem_append_left _ hd, hpage⟩
    · obtain ⟨item, hitem, rfl⟩ := List.mem_map.mp (mem_pageBits_pages.mpr h)
      refine ⟨randomSeu item, List.mem_append_right _ (List.mem_map_of_mem ?_), rfl⟩
      exact List.mem_filter.mpr ⟨hitem, by simpa using hpatterned⟩

/-- **The search** for hammered rows finds what a look at all pairs would find, and each page
with an event is diagnosed. -/
theorem diagnoses_complete (events : List CEEvent) :
    (checkRowHammer events).Perm ((hammeredPairs events).map pairDiagnosis) ∧
      ∀ page, (∃ d ∈ analyzeBitflips events, d.page = page) ↔ ∃ e ∈ events, e.page = page :=
  ⟨perm_checkRowHammer events, exists_diagnosis_iff events⟩

end Scan

end FaultOracle.Bitflips
