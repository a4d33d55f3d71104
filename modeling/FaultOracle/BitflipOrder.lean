import FaultOracle.BitflipAnalyzer

/-!
# Both pages of a hammered pair

A pair of hammered rows is diagnosed for the page of its earlier event only, and of two events at
the same time for that which is listed first.  The other page is left to the rest of the analysis.

`rowHammer_iff`: the diagnoses do not depend on the order of the events exactly when no pair has
one time, and neither page of a pair is called a random upset exactly when the other page has a
pattern of its own.
-/

namespace FaultOracle.Bitflips

open InsertionDict ListPairs

/-- The diagnoses do not depend on the order in which the events are listed. -/
def OrderFree (events : List CEEvent) : Prop :=
  ∀ other, events.Perm other → (analyzeBitflips events).Perm (analyzeBitflips other)

/-- No page of a hammered pair is called a random upset. -/
def Spared (events : List CEEvent) : Prop :=
  ∀ p ∈ hammeredPairs events, ∀ d ∈ analyzeBitflips events, d.pattern = .randomSeu →
    d.page ≠ p.1.page ∧ d.page ≠ p.2.page

/-- Of a pair, the event which is diagnosed. -/
def earlier (p : CEEvent × CEEvent) : CEEvent :=
  if p.1.timestamp ≤ p.2.timestamp then p.1 else p.2

def later (p : CEEvent × CEEvent) : CEEvent :=
  if p.1.timestamp ≤ p.2.timestamp then p.2 else p.1

/-- A page has an event of several bits, or more than five events of one bit, or the earlier
event of a hammered pair. -/
def Marked (events : List CEEvent) (page : Int) : Prop :=
  (∃ e ∈ events, e.page = page ∧ 1 < (bitPositions e.syndrome).length) ∨
    (∃ bit < 64, 5 < events.countP fun e => e.page = page ∧ e.syndrome.testBit bit = true) ∨
    ∃ p ∈ hammeredPairs events, (earlier p).page = page

section Bits

variable {bits other : List Nat} {events : List CEEvent} {page : Int}

/-- The sorted set does not depend on the order. -/
theorem sortedSet_eq_of_perm (h : bits.Perm other) : sortedSet bits = sortedSet other := by
  have hperm : (sortedSet bits).Perm (sortedSet other) :=
    ((List.perm_insertionSort _ _).trans h.dedup).trans (List.perm_insertionSort _ _).symm
  exact hperm.eq_of_pairwise' (List.pairwise_insertionSort _ _) (List.pairwise_insertionSort _ _)

/-- The stuck bits are those counted more than five times. -/
theorem stuckBits_eq (bits : List Nat) :
    stuckBits bits = bits.eraseDups.filter fun bit => decide (bits.count bit > 5) := by
  rw [stuckBits, foldl_bump_eq, List.filterMap_map, ← List.filterMap_eq_filter]
  refine List.filterMap_congr fun bit _ => ?_
  by_cases h : bits.count bit > 5
  · simp [h, Option.guard]
  · simp [h, Option.guard]

/-- A bit is stuck exactly when it was counted more than five times. -/
theorem mem_stuckBits {bit : Nat} : bit ∈ stuckBits bits ↔ 5 < bits.count bit := by
  rw [stuckBits_eq, List.mem_filter, List.mem_eraseDups, decide_eq_true_eq]
  exact ⟨And.right, fun h => ⟨List.count_pos_iff.mp (by omega), h⟩⟩

/-- Permuted bits give permuted stuck bits. -/
theorem perm_stuckBits (h : bits.Perm other) : (stuckBits bits).Perm (stuckBits other) := by
  have hcount : ∀ bit, bits.count bit = other.count bit := fun bit => h.count_eq bit
  rw [stuckBits_eq, stuckBits_eq]
  simp only [hcount]
  exact (perm_eraseDups fun bit => h.mem_iff).filter _

/-- The diagnosis of a page does not depend on the order of its bits. -/
theorem stuckBit_eq_of_perm (h : bits.Perm other) :
    stuckBit (page, bits) = stuckBit (page, other) := by
  have hperm := perm_stuckBits h
  have hnil : stuckBits bits ≠ [] ↔ stuckBits other ≠ [] := not_congr
    ⟨fun heq => (heq ▸ hperm).nil_eq.symm, fun heq => (heq ▸ hperm).eq_nil⟩
  have hsorted : (stuckBits bits).insertionSort (· ≤ ·) = (stuckBits other).insertionSort (· ≤ ·) :=
    (((List.perm_insertionSort _ _).trans hperm).trans
      (List.perm_insertionSort _ _).symm).eq_of_pairwise'
        (List.pairwise_insertionSort _ _) (List.pairwise_insertionSort _ _)
  simp only [stuckBit, hnil, hsorted]

/-- The bits of the events of a page. -/
def bitsOf (events : List CEEvent) (page : Int) : List Nat :=
  (events.filter fun e => e.page == page).flatMap fun e => bitPositions e.syndrome

/-- The bits by page: each page once, with all its bits. -/
theorem pageBits_eq (events : List CEEvent) :
    pageBits events = (events.map CEEvent.page).eraseDups.map fun page =>
      (page, bitsOf events page) := collect_eq _ _ _

/-- The positions are the set bits of the syndrome below 64. -/
theorem mem_bitPositions {syndrome : Int} {bit : Nat} :
    bit ∈ bitPositions syndrome ↔ bit < 64 ∧ syndrome.testBit bit = true := by
  rw [bitPositions, List.mem_filter, List.mem_range]

/-- How often a bit is among those of a page. -/
theorem count_bitsOf (events : List CEEvent) (page : Int) {bit : Nat} (hbit : bit < 64) :
    (bitsOf events page).count bit =
      events.countP fun e => e.page = page ∧ e.syndrome.testBit bit = true := by
  have hone : ∀ syndrome : Int, (bitPositions syndrome).count bit =
      if syndrome.testBit bit = true then 1 else 0 := by
    intro syndrome
    have hnodup : (bitPositions syndrome).Nodup := List.nodup_range.filter _
    by_cases h : syndrome.testBit bit = true
    · rw [if_pos h]
      exact List.count_eq_one_of_mem hnodup (mem_bitPositions.mpr ⟨hbit, h⟩)
    · rw [if_neg h]
      exact List.count_eq_zero.mpr fun hmem => h (mem_bitPositions.mp hmem).2
  induction events with
  | nil => rfl
  | cons e events ih =>
      rw [List.countP_cons, ← ih, bitsOf, bitsOf, List.filter_cons]
      by_cases hpage : e.page = page
      · rw [if_pos (by simpa using hpage), List.flatMap_cons, List.count_append, hone]
        by_cases h : e.syndrome.testBit bit = true
        · simp [h, hpage, Nat.add_comm]
        · simp [h]
      · rw [if_neg (by simpa using hpage)]
        simp [hpage]

end Bits

/-! ## Random upsets -/

section Random

variable {events : List CEEvent} {page : Int} {d : BitflipDiagnosis} {p : CEEvent × CEEvent}

/-- A pair is diagnosed on the page of its earlier event. -/
theorem pairDiagnosis_page (p : CEEvent × CEEvent) : (pairDiagnosis p).page = (earlier p).page := by
  unfold pairDiagnosis earlier
  split <;> rfl

/-- A pair is diagnosed as row hammer. -/
theorem pairDiagnosis_pattern (p : CEEvent × CEEvent) : (pairDiagnosis p).pattern = .rowHammer := by
  unfold pairDiagnosis
  split <;> rfl

/-- An event with more than one bit is diagnosed on its own page. -/
theorem page_of_multiBit {e : CEEvent} : (∃ d, multiBit e = some d ∧ d.page = page) ↔
    e.page = page ∧ 1 < (bitPositions e.syndrome).length := by
  unfold multiBit
  by_cases h : (bitPositions e.syndrome).length > 1
  · simp [h]
  · simp [h]

/-- A page is diagnosed exactly when one of its bits is stuck. -/
theorem page_of_stuckBit {item : Int × List Nat} : (∃ d, stuckBit item = some d ∧ d.page = page) ↔
    item.1 = page ∧ stuckBits item.2 ≠ [] := by
  unfold stuckBit
  by_cases h : stuckBits item.2 = []
  · simp [h]
  · simp [h]

/-- A page has a stuck bit. -/
theorem exists_stuckBit_iff : (∃ d ∈ (pageBits events).filterMap stuckBit, d.page = page) ↔
    ∃ bit < 64, 5 < events.countP fun e => e.page = page ∧ e.syndrome.testBit bit = true := by
  have hpages : (∃ d ∈ (pageBits events).filterMap stuckBit, d.page = page) ↔
      stuckBits (bitsOf events page) ≠ [] := by
    rw [pageBits_eq]
    constructor
    · intro h
      obtain ⟨d, hd, hpage⟩ := h
      obtain ⟨item, hitem, hstuck⟩ := List.mem_filterMap.mp hd
      obtain ⟨k, _, rfl⟩ := List.mem_map.mp hitem
      obtain ⟨rfl, hbits⟩ := page_of_stuckBit.mp ⟨d, hstuck, hpage⟩
      exact hbits
    · intro h
      obtain ⟨d, hd, hpage⟩ := page_of_stuckBit.mpr ⟨(rfl : (page, bitsOf events page).1 = page), h⟩
      have hkey : page ∈ events.map CEEvent.page := by
        by_contra hnone
        have hempty : events.filter (fun e => e.page == page) = [] :=
          List.filter_eq_nil_iff.mpr fun e he heq => hnone
            (List.mem_map.mpr ⟨e, he, by simpa using heq⟩)
        rw [bitsOf, hempty] at h
        exact h rfl
      exact ⟨d, List.mem_filterMap.mpr
        ⟨_, List.mem_map_of_mem (List.mem_eraseDups.mpr hkey), hd⟩, hpage⟩
  have hbits : ∀ bit ∈ bitsOf events page, bit < 64 := by
    intro bit hbit
    obtain ⟨e, _, hmem⟩ := List.mem_flatMap.mp hbit
    exact (mem_bitPositions.mp hmem).1
  rw [hpages]
  constructor
  · intro h
    obtain ⟨bit, hbit⟩ := List.exists_mem_of_ne_nil _ h
    have hcount := mem_stuckBits.mp hbit
    have hlt : bit < 64 := hbits bit (List.count_pos_iff.mp (by omega))
    exact ⟨bit, hlt, count_bitsOf events page hlt ▸ hcount⟩
  · intro h
    obtain ⟨bit, hlt, hcount⟩ := h
    exact List.ne_nil_of_mem (mem_stuckBits.mpr ((count_bitsOf events page hlt).symm ▸ hcount))

/-- **The pages which have a pattern.** -/
theorem exists_patterned_iff :
    (∃ d ∈ patterned events, d.page = page) ↔ Marked events page := by
  have hmulti : (∃ d ∈ events.filterMap multiBit, d.page = page) ↔
      ∃ e ∈ events, e.page = page ∧ 1 < (bitPositions e.syndrome).length := by
    simp only [List.mem_filterMap, ← page_of_multiBit]
    tauto
  have hhammer : (∃ d ∈ checkRowHammer events, d.page = page) ↔
      ∃ p ∈ hammeredPairs events, (earlier p).page = page := by
    simp only [(perm_checkRowHammer events).mem_iff, List.mem_map, ← pairDiagnosis_page,
      exists_exists_and_eq_and]
  rw [Marked, ← hmulti, ← hhammer, ← exists_stuckBit_iff, patterned]
  simp only [List.mem_append, or_and_right, exists_or, or_assoc]

/-- No patterned diagnosis is a random upset. -/
theorem pattern_of_patterned (h : d ∈ patterned events) : d.pattern ≠ .randomSeu := by
  rw [patterned, List.mem_append, List.mem_append] at h
  rcases h with (h | h) | h
  · obtain ⟨e, _, hd⟩ := List.mem_filterMap.mp h
    rw [(of_multiBit hd).2]
    exact Pattern.noConfusion
  · obtain ⟨item, _, hd⟩ := List.mem_filterMap.mp h
    rw [(of_stuckBit hd).2]
    exact Pattern.noConfusion
  · obtain ⟨p, _, rfl⟩ := List.mem_map.mp ((perm_checkRowHammer events).mem_iff.mp h)
    rw [pairDiagnosis_pattern]
    exact Pattern.noConfusion

/-- **Random upsets** are the pages with an event and without a pattern. -/
theorem exists_randomSeu_iff :
    (∃ d ∈ analyzeBitflips events, d.pattern = .randomSeu ∧ d.page = page) ↔
      (∃ e ∈ events, e.page = page) ∧ ¬ Marked events page := by
  by_cases hnil : events = []
  · simp [analyzeBitflips, hnil]
  rw [analyzeBitflips, if_neg hnil, ← mem_pageBits_pages, ← exists_patterned_iff]
  constructor
  · intro h
    obtain ⟨d, hd, hpattern, rfl⟩ := h
    rcases List.mem_append.mp hd with hd | hd
    · exact absurd hpattern (pattern_of_patterned hd)
    · obtain ⟨item, hitem, rfl⟩ := List.mem_map.mp hd
      obtain ⟨hmem, hfree⟩ := List.mem_filter.mp hitem
      exact ⟨List.mem_map_of_mem hmem, by simpa [randomSeu] using hfree⟩
  · intro h
    obtain ⟨hkey, hfree⟩ := h
    obtain ⟨item, hitem, rfl⟩ := List.mem_map.mp hkey
    refine ⟨randomSeu item, List.mem_append_right _ (List.mem_map_of_mem ?_), rfl, rfl⟩
    exact List.mem_filter.mpr ⟨hitem, by simpa using hfree⟩

/-- Both events of a hammered pair are events of the window. -/
theorem events_of_hammered (h : p ∈ hammeredPairs events) :
    earlier p ∈ events ∧ later p ∈ events := by
  obtain ⟨hfst, hsnd⟩ := mem_of_mem_pairs (List.mem_filter.mp h).1
  unfold earlier later
  split
  · exact ⟨hfst, hsnd⟩
  · exact ⟨hsnd, hfst⟩

/-- A page off both events of a pair is off its earlier and its later one. -/
theorem page_of_pair (p : CEEvent × CEEvent) :
    (page ≠ p.1.page ∧ page ≠ p.2.page) ↔ page ≠ (earlier p).page ∧ page ≠ (later p).page := by
  unfold earlier later
  split
  · rfl
  · exact and_comm

/-- **The other page** has to have a pattern of its own. -/
theorem spared_iff : Spared events ↔ ∀ p ∈ hammeredPairs events, Marked events (later p).page := by
  constructor
  · intro h p hp
    by_contra hfree
    obtain ⟨d, hd, hpattern, hpage⟩ :=
      exists_randomSeu_iff.mpr ⟨⟨later p, (events_of_hammered hp).2, rfl⟩, hfree⟩
    exact ((page_of_pair p).mp (h p hp d hd hpattern)).2 hpage
  · intro h p hp d hd hpattern
    have hfree := (exists_randomSeu_iff.mp ⟨d, hd, hpattern, rfl⟩).2
    rw [page_of_pair]
    constructor
    · intro hpage
      exact hfree (.inr (.inr ⟨p, hp, hpage.symm⟩))
    · intro hpage
      exact hfree (hpage ▸ h p hp)

end Random

/-! ## The order of the events -/

section Order

variable {events other : List CEEvent} {x y : CEEvent} {page : Int}

theorem hammered_comm : Hammered x y ↔ Hammered y x := by
  unfold Hammered
  rw [abs_sub_comm x.csrow, abs_sub_comm x.timestamp, eq_comm (a := x.controller),
    eq_comm (a := x.channel), ne_comm (a := x.page)]

/-- No event hammers itself. -/
theorem ne_of_hammered (h : Hammered x y) : x ≠ y := by
  intro heq
  exact h.2.2.2.1 (congrArg CEEvent.page heq)

/-- Of two times it does not matter which event is listed first. -/
theorem pairDiagnosis_comm (h : x.timestamp ≠ y.timestamp) :
    pairDiagnosis (x, y) = pairDiagnosis (y, x) := by
  unfold pairDiagnosis
  rcases lt_or_gt_of_ne h with hlt | hlt
  · rw [if_pos hlt.le, if_neg (not_le.mpr hlt)]
  · rw [if_neg (not_le.mpr hlt), if_pos hlt.le]

/-- The diagnoses of the pairs, pair by pair. -/
theorem hammeredPairs_map_eq (events : List CEEvent) :
    (hammeredPairs events).map pairDiagnosis = (pairs events).flatMap fun p =>
      if Hammered p.1 p.2 then [pairDiagnosis p] else [] := by
  rw [hammeredPairs]
  induction pairs events with
  | nil => rfl
  | cons p ps ih =>
      rw [List.filter_cons, List.flatMap_cons, ← ih]
      by_cases h : Hammered p.1 p.2
      · simp [h]
      · simp [h]

/-- Where no pair is tied, permuted events give permuted diagnoses. -/
theorem perm_checkRowHammer_of_untied (hperm : events.Perm other)
    (h : ∀ p ∈ hammeredPairs events, p.1.timestamp ≠ p.2.timestamp) :
    (checkRowHammer events).Perm (checkRowHammer other) := by
  have huntied : ∀ x ∈ events, ∀ y ∈ events, Hammered x y → x.timestamp ≠ y.timestamp := by
    intro x hx y hy hxy
    rcases mem_pairs_or hx hy (ne_of_hammered hxy) with hmem | hmem
    · exact h (x, y) (List.mem_filter.mpr ⟨hmem, decide_eq_true hxy⟩)
    · exact (h (y, x) (List.mem_filter.mpr ⟨hmem, decide_eq_true (hammered_comm.mp hxy)⟩)).symm
  refine (perm_checkRowHammer events).trans (List.Perm.trans ?_ (perm_checkRowHammer other).symm)
  rw [hammeredPairs_map_eq, hammeredPairs_map_eq]
  refine perm_flatMap_pairs hperm fun x hx y hy => List.Perm.of_eq ?_
  by_cases hxy : Hammered x y
  · rw [if_pos hxy, if_pos (hammered_comm.mp hxy), pairDiagnosis_comm (huntied x hx y hy hxy)]
  · rw [if_neg hxy, if_neg (mt hammered_comm.mp hxy)]

/-- Permuted events give permuted bits of a page. -/
theorem perm_bitsOf (h : events.Perm other) (page : Int) :
    (bitsOf events page).Perm (bitsOf other page) := (h.filter _).flatMap_right _

/-- Permuted events give permuted pages. -/
theorem perm_pages (h : events.Perm other) :
    (events.map CEEvent.page).eraseDups.Perm (other.map CEEvent.page).eraseDups :=
  perm_eraseDups fun _ => (h.map _).mem_iff

/-- Without ties, the order does not matter. -/
theorem orderFree_of_untied (h : ∀ p ∈ hammeredPairs events, p.1.timestamp ≠ p.2.timestamp) :
    OrderFree events := by
  intro other hperm
  by_cases hnil : events = []
  · subst hnil
    rw [hperm.nil_eq]
  have hother : other ≠ [] := fun heq => hnil (heq ▸ hperm).eq_nil
  have hstuck : ((pageBits events).filterMap stuckBit).Perm
      ((pageBits other).filterMap stuckBit) := by
    rw [pageBits_eq, pageBits_eq, List.filterMap_map, List.filterMap_map]
    have hsame : (stuckBit ∘ fun page => (page, bitsOf events page)) =
        stuckBit ∘ fun page => (page, bitsOf other page) :=
      funext fun page => stuckBit_eq_of_perm (perm_bitsOf hperm page)
    rw [hsame]
    exact (perm_pages hperm).filterMap _
  have hpatterned : (patterned events).Perm (patterned other) :=
    ((hperm.filterMap multiBit).append hstuck).append (perm_checkRowHammer_of_untied hperm h)
  rw [analyzeBitflips, analyzeBitflips, if_neg hnil, if_neg hother]
  refine hpatterned.append ?_
  have hfree : ∀ page : Int, ((patterned events).map BitflipDiagnosis.page).contains page =
      ((patterned other).map BitflipDiagnosis.page).contains page := fun page =>
    (hpatterned.map _).contains_eq
  have hrandom : (randomSeu ∘ fun page => (page, bitsOf events page)) =
      randomSeu ∘ fun page => (page, bitsOf other page) := funext fun page => by
    simp only [Function.comp_apply, randomSeu, sortedSet_eq_of_perm (perm_bitsOf hperm page)]
  rw [pageBits_eq, pageBits_eq, List.filter_map, List.filter_map, List.map_map, List.map_map,
    hrandom]
  simp only [Function.comp_def, hfree]
  exact ((perm_pages hperm).filter _).map _

/-- How many pairs a page is named for. -/
theorem countP_analyzeBitflips (events : List CEEvent) (page : Int) :
    (analyzeBitflips events).countP (fun d => d.pattern = .rowHammer ∧ d.page = page) =
      (pairs events).countP fun p => Hammered p.1 p.2 ∧ (earlier p).page = page := by
  have hnone : ∀ ds : List BitflipDiagnosis, (∀ d ∈ ds, d.pattern ≠ .rowHammer) →
      ds.countP (fun d => d.pattern = .rowHammer ∧ d.page = page) = 0 := by
    intro ds hds
    rw [List.countP_eq_zero]
    intro d hd
    simp [hds d hd]
  have hmulti : ∀ d ∈ events.filterMap multiBit, d.pattern ≠ .rowHammer := by
    intro d hd
    obtain ⟨e, _, hd⟩ := List.mem_filterMap.mp hd
    rw [(of_multiBit hd).2]
    exact Pattern.noConfusion
  have hstuck : ∀ d ∈ (pageBits events).filterMap stuckBit, d.pattern ≠ .rowHammer := by
    intro d hd
    obtain ⟨item, _, hd⟩ := List.mem_filterMap.mp hd
    rw [(of_stuckBit hd).2]
    exact Pattern.noConfusion
  have hhammer : (checkRowHammer events).countP
      (fun d => d.pattern = .rowHammer ∧ d.page = page) =
        (pairs events).countP fun p => Hammered p.1 p.2 ∧ (earlier p).page = page := by
    rw [(perm_checkRowHammer events).countP_eq, List.countP_map, hammeredPairs, List.countP_filter]
    refine List.countP_congr fun p _ => ?_
    simp [pairDiagnosis_page, pairDiagnosis_pattern, and_comm]
  by_cases hnil : events = []
  · subst hnil
    rfl
  rw [analyzeBitflips, if_neg hnil, List.countP_append, patterned, List.countP_append,
    List.countP_append, hnone _ hmulti, hnone _ hstuck, hhammer, hnone]
  · omega
  · exact List.forall_mem_map.mpr fun _ _ => Pattern.noConfusion

/-- The page is that of the earlier event, and not because it is listed first. -/
def StrictlyEarlier (page : Int) (p : CEEvent × CEEvent) : Prop :=
  Hammered p.1 p.2 ∧ (p.1.timestamp < p.2.timestamp ∧ p.1.page = page ∨
    p.2.timestamp < p.1.timestamp ∧ p.2.page = page)

/-- The page is that of one of two events at the same time. -/
def TiedWith (page : Int) (p : CEEvent × CEEvent) : Prop :=
  Hammered p.1 p.2 ∧ p.1.timestamp = p.2.timestamp ∧ (p.1.page = page ∨ p.2.page = page)

instance (page : Int) (p : CEEvent × CEEvent) : Decidable (StrictlyEarlier page p) :=
  inferInstanceAs (Decidable (_ ∧ _))

instance (page : Int) (p : CEEvent × CEEvent) : Decidable (TiedWith page p) :=
  inferInstanceAs (Decidable (_ ∧ _))

theorem strictlyEarlier_comm : StrictlyEarlier page (x, y) ↔ StrictlyEarlier page (y, x) := by
  unfold StrictlyEarlier
  rw [hammered_comm, or_comm]

theorem tiedWith_comm : TiedWith page (x, y) ↔ TiedWith page (y, x) := by
  unfold TiedWith
  rw [hammered_comm, eq_comm (a := x.timestamp), or_comm]

/-- When the events of the page are listed first, it is named for all of its ties. -/
theorem earlier_iff_first {p : CEEvent × CEEvent} (h : p.2.page = page → p.1.page = page) :
    (Hammered p.1 p.2 ∧ (earlier p).page = page) ↔
      StrictlyEarlier page p ∨ TiedWith page p := by
  unfold StrictlyEarlier TiedWith earlier
  rcases lt_trichotomy p.1.timestamp p.2.timestamp with hlt | heq | hlt
  · simp [hlt, hlt.le, hlt.ne, not_lt.mpr hlt.le]
  · rw [if_pos heq.le]
    simp only [heq, lt_irrefl, false_and, or_self, and_false, false_or, true_and]
    tauto
  · simp [hlt, hlt.ne', not_lt.mpr hlt.le, not_le.mpr hlt]

/-- When they are listed last, it is named for none. -/
theorem earlier_iff_last {p : CEEvent × CEEvent} (h : p.1.page = page → p.2.page = page) :
    (Hammered p.1 p.2 ∧ (earlier p).page = page) ↔ StrictlyEarlier page p := by
  unfold StrictlyEarlier earlier
  rcases lt_trichotomy p.1.timestamp p.2.timestamp with hlt | heq | hlt
  · simp [hlt, hlt.le, not_lt.mpr hlt.le]
  · rw [if_pos heq.le]
    simp only [heq, lt_irrefl, false_and, or_self, and_false, iff_false, not_and]
    intro hhammered hpage
    exact hhammered.2.2.2.1 (hpage.trans (h hpage).symm)
  · simp [hlt, not_lt.mpr hlt.le, not_le.mpr hlt]

/-- The events of a page can be listed first, or last. -/
theorem exists_listings (events : List CEEvent) (page : Int) : ∃ first last : List CEEvent,
    events.Perm first ∧ (∀ p ∈ pairs first, p.2.page = page → p.1.page = page) ∧
    events.Perm last ∧ ∀ p ∈ pairs last, p.1.page = page → p.2.page = page := by
  let its := events.filter fun e => e.page = page
  let others := events.filter fun e => !decide (e.page = page)
  have hperm : events.Perm (its ++ others) := (List.filter_append_perm _ _).symm
  have hin : ∀ e ∈ its, e.page = page := fun e he => of_decide_eq_true (List.mem_filter.mp he).2
  have hout : ∀ e ∈ others, e.page ≠ page := fun e he => by
    simpa using (List.mem_filter.mp he).2
  refine ⟨its ++ others, others ++ its, hperm, ?_, hperm.trans List.perm_append_comm, ?_⟩
  · refine (forall_mem_pairs (R := fun x y : CEEvent => y.page = page → x.page = page)).mpr
      (List.pairwise_append.mpr ⟨?_, ?_, ?_⟩)
    · exact List.pairwise_of_forall_mem_list fun x hx _ _ _ => hin x hx
    · exact List.pairwise_of_forall_mem_list fun _ _ y hy hpage => absurd hpage (hout y hy)
    · exact fun x hx _ _ _ => hin x hx
  · refine (forall_mem_pairs (R := fun x y : CEEvent => x.page = page → y.page = page)).mpr
      (List.pairwise_append.mpr ⟨?_, ?_, ?_⟩)
    · exact List.pairwise_of_forall_mem_list fun x hx _ _ hpage => absurd hpage (hout x hx)
    · exact List.pairwise_of_forall_mem_list fun _ _ y hy _ => hin y hy
    · exact fun x hx _ _ hpage => absurd hpage (hout x hx)

/-- **A tie** is diagnosed for the one page or for the other. -/
theorem untied_of_orderFree (h : OrderFree events) :
    ∀ p ∈ hammeredPairs events, p.1.timestamp ≠ p.2.timestamp := by
  intro tie htie heq
  obtain ⟨hmem, hhammered⟩ := List.mem_filter.mp htie
  have hhammered := of_decide_eq_true hhammered
  obtain ⟨page, hpage⟩ : ∃ page, tie.1.page = page := ⟨_, rfl⟩
  obtain ⟨first, last, hfirst, hfirstPairs, hlast, hlastPairs⟩ := exists_listings events page
  have hnamed : (pairs first).countP
        (fun p => Hammered p.1 p.2 ∧ (earlier p).page = page) =
      (pairs last).countP fun p => Hammered p.1 p.2 ∧ (earlier p).page = page := by
    rw [← countP_analyzeBitflips, ← countP_analyzeBitflips, ← (h _ hfirst).countP_eq,
      (h _ hlast).countP_eq]
  have hall : (pairs first).countP
      (fun p => Hammered p.1 p.2 ∧ (earlier p).page = page) =
        (pairs events).countP fun p => StrictlyEarlier page p ∨ TiedWith page p := by
    have hsymm : ∀ x y, decide (StrictlyEarlier page (x, y) ∨ TiedWith page (x, y)) =
        decide (StrictlyEarlier page (y, x) ∨ TiedWith page (y, x)) := fun x y =>
      decide_eq_decide.mpr (or_congr strictlyEarlier_comm tiedWith_comm)
    rw [countP_pairs_of_perm hfirst hsymm]
    refine List.countP_congr fun p hp => ?_
    rw [decide_eq_true_eq, decide_eq_true_eq]
    exact earlier_iff_first (hfirstPairs p hp)
  have hstrict : (pairs last).countP
      (fun p => Hammered p.1 p.2 ∧ (earlier p).page = page) =
        (pairs events).countP fun p => StrictlyEarlier page p := by
    have hsymm : ∀ x y, decide (StrictlyEarlier page (x, y)) =
        decide (StrictlyEarlier page (y, x)) := fun x y =>
      decide_eq_decide.mpr strictlyEarlier_comm
    rw [countP_pairs_of_perm hlast hsymm]
    refine List.countP_congr fun p hp => ?_
    rw [decide_eq_true_eq, decide_eq_true_eq]
    exact earlier_iff_last (hlastPairs p hp)
  have htied : TiedWith page tie := ⟨hhammered, heq, .inl hpage⟩
  have hnot : ¬ StrictlyEarlier page tie := by
    unfold StrictlyEarlier
    rw [heq]
    simp
  have hlt : (pairs events).countP (fun p => StrictlyEarlier page p) <
      (pairs events).countP fun p => StrictlyEarlier page p ∨ TiedWith page p := by
    refine countP_lt (fun p _ hp => ?_) hmem (decide_eq_true (.inr htied)) (decide_eq_false hnot)
    exact decide_eq_true (.inl (of_decide_eq_true hp))
  rw [← hall, ← hstrict, hnamed] at hlt
  exact lt_irrefl _ hlt

/-- **Hammered pairs.**  The diagnoses do not depend on the order exactly when no pair is tied,
and no page of a pair is called a random upset exactly when the page that a pair is not diagnosed
for has a pattern of its own. -/
theorem rowHammer_iff (events : List CEEvent) :
    (OrderFree events ↔ ∀ p ∈ hammeredPairs events, p.1.timestamp ≠ p.2.timestamp) ∧
      (Spared events ↔ ∀ p ∈ hammeredPairs events, Marked events (later p).page) :=
  ⟨⟨untied_of_orderFree, orderFree_of_untied⟩, spared_iff⟩

/-- Two events of neighbouring rows at the same time. -/
def neighbours : List CEEvent :=
  [{ page := 1, offset := 0, syndrome := 1, timestamp := 0, controller := "mc0", csrow := 4,
     channel := 0 },
    { page := 2, offset := 0, syndrome := 2, timestamp := 0, controller := "mc0", csrow := 5,
      channel := 0 }]

/-- The second page is called a random upset, and listed the other way round the first one is. -/
theorem other_page_random : ¬ OrderFree neighbours ∧ ¬ Spared neighbours := by
  constructor
  · intro h
    have hperm := (h neighbours.reverse (List.reverse_perm _).symm).countP_eq
      fun d => d.pattern = .rowHammer ∧ d.page = 1
    rw [countP_analyzeBitflips, countP_analyzeBitflips] at hperm
    revert hperm
    decide +kernel
  · intro h
    have hrandom : ∃ d ∈ analyzeBitflips neighbours, d.pattern = .randomSeu ∧ d.page = 2 := by
      decide +kernel
    obtain ⟨d, hd, hpattern, hpage⟩ := hrandom
    have hpair : ∃ p ∈ hammeredPairs neighbours, p.2.page = 2 := by decide +kernel
    obtain ⟨p, hp, htwo⟩ := hpair
    exact (h p hp d hd hpattern).2 (hpage.trans htwo.symm)

end Order

end FaultOracle.Bitflips
