import Mathlib.Algebra.Order.Ring.Rat
import Mathlib.Algebra.Order.Group.Unbundled.Abs
import Mathlib.Tactic.Linarith
import FaultOracle.InsertionDict

/-!
# The event correlator

`correlation/event_correlator.py`: the sliding window of events, and the three rules which
`detect_correlations` applies to it.

The file's own documentation gives each rule a time: a CE and an MCE within ten seconds, a fatal
AER error and a UE within thirty, three events of a type within sixty.  `detect_correlations`
looks at no time.  It counts the events of each type which are left in the window, so that it
follows the rules exactly where the window holds nothing further apart than the rule allows
(`detectCorrelations_follows_iff`).

Times are seconds since the epoch.
-/

namespace FaultOracle.Correlator

open InsertionDict

/-- `CORRELATION_WINDOW_S`. -/
def correlationWindowS : Nat := 60

/-- The members of an event which the correlator reads. -/
structure Event where
  eventType : String
  timestamp : Option ℚ
deriving DecidableEq, Repr

/-- `e.get("timestamp", 0)`. -/
def Event.time (e : Event) : ℚ := e.timestamp.getD 0

structure EventBuffer where
  windowS : ℚ
  events : List Event
deriving DecidableEq, Repr

/-- `EventBuffer(window_s)`. -/
def EventBuffer.new (windowS : ℚ) : EventBuffer := ⟨windowS, []⟩

/-- `_expire`, with the clock at `now`. -/
def EventBuffer.expire (now : ℚ) (b : EventBuffer) : EventBuffer :=
  { b with events := b.events.filter fun e => decide (now - b.windowS ≤ e.time) }

/-- `add`. -/
def EventBuffer.add (now : ℚ) (e : Event) (b : EventBuffer) : EventBuffer :=
  { b with events := b.events ++ [e] }.expire now

/-- The counter of `count_by_type`. -/
def typeCounts (events : List Event) : List (String × Nat) :=
  (events.map Event.eventType).foldl bump []

/-- `count_by_type`: the buffer it leaves, and the counter. -/
def EventBuffer.countByType (now : ℚ) (b : EventBuffer) : EventBuffer × List (String × Nat) :=
  (b.expire now, typeCounts (b.expire now).events)

inductive CorrelationType
  | memoryMultiSource
  | pcieMemoryCascade
  | eventStorm
deriving DecidableEq, Repr

inductive Severity
  | warning
  | critical
deriving DecidableEq, Repr

structure Correlation where
  type : CorrelationType
  severity : Severity
  description : String
  eventType : Option String
  count : Option Nat
deriving DecidableEq, Repr

/-- Rule 1. -/
def memoryMultiSource (ce mce : Nat) : Correlation where
  type := .memoryMultiSource
  severity := .critical
  description :=
    "EDAC CE (" ++ toString ce ++ ") + MCE (" ++ toString mce ++ ") within " ++
      toString correlationWindowS ++ "s"
  eventType := none
  count := none

/-- Rule 2. -/
def pcieMemoryCascade : Correlation where
  type := .pcieMemoryCascade
  severity := .critical
  description := "PCIe AER fatal + EDAC UE — possible interconnect failure"
  eventType := none
  count := none

/-- Rule 3. -/
def eventStorm (etype : String) (cnt : Nat) : Correlation where
  type := .eventStorm
  severity := .warning
  description :=
    etype ++ " storm: " ++ toString cnt ++ " events in " ++ toString correlationWindowS ++ "s"
  eventType := some etype
  count := some cnt

/-- The rules, on the counter. -/
def correlationsOf (byType : List (String × Nat)) : List Correlation :=
  let count (t : String) := (byType.lookup t).getD 0
  (if count "edac_ce" > 0 ∧ count "mce" > 0 then
      [memoryMultiSource (count "edac_ce") (count "mce")] else []) ++
    (if count "pcie_aer_fatal" > 0 ∧ count "edac_ue" > 0 then [pcieMemoryCascade] else []) ++
    byType.filterMap fun item => if item.2 ≥ 3 then some (eventStorm item.1 item.2) else none

/-- `detect_correlations`: the buffer it leaves, and the correlations. -/
def detectCorrelations (now : ℚ) (b : EventBuffer) : EventBuffer × List Correlation :=
  let (b, byType) := b.countByType now
  (b, correlationsOf byType)

/-! ## What is detected -/

/-- How many events of a type there are. -/
def countOf (t : String) (events : List Event) : Nat := (events.map Event.eventType).count t

/-- The count of a type is how often it occurs. -/
theorem count_typeCounts (events : List Event) (t : String) :
    ((typeCounts events).lookup t).getD 0 = countOf t events := by
  rw [typeCounts, count_foldl_bump, List.lookup_nil, Option.getD_none, Nat.zero_add, countOf]

/-- The correlations of a buffer, rule by rule. -/
theorem mem_correlationsOf {events : List Event} {c : Correlation} :
    c ∈ correlationsOf (typeCounts events) ↔
      ((0 < countOf "edac_ce" events ∧ 0 < countOf "mce" events) ∧
          c = memoryMultiSource (countOf "edac_ce" events) (countOf "mce" events)) ∨
        ((0 < countOf "pcie_aer_fatal" events ∧ 0 < countOf "edac_ue" events) ∧
          c = pcieMemoryCascade) ∨
        ∃ t, 3 ≤ countOf t events ∧ c = eventStorm t (countOf t events) := by
  have hstorm : (∃ item ∈ typeCounts events,
      (if item.2 ≥ 3 then some (eventStorm item.1 item.2) else none) = some c) ↔
      ∃ t, 3 ≤ countOf t events ∧ c = eventStorm t (countOf t events) := by
    constructor
    · intro ⟨⟨t, n⟩, hitem, hc⟩
      obtain ⟨_, rfl⟩ := mem_foldl_bump.mp hitem
      by_cases hn : (events.map Event.eventType).count t ≥ 3
      · rw [if_pos hn, Option.some_inj] at hc
        exact ⟨t, hn, hc.symm⟩
      · rw [if_neg hn] at hc
        cases hc
    · intro ⟨t, hn, hc⟩
      refine ⟨(t, countOf t events), mem_foldl_bump.mpr ⟨?_, rfl⟩, ?_⟩
      · exact Nat.lt_of_lt_of_le (by decide) hn
      · rw [if_pos hn, hc]
  simp only [correlationsOf, count_typeCounts, List.mem_append, List.mem_filterMap, hstorm,
    List.mem_ite_nil_right, List.mem_singleton, gt_iff_lt, or_assoc]

/-- The list reports a correlation of a type. -/
def Reports (cs : List Correlation) (type : CorrelationType) : Prop := ∃ c ∈ cs, c.type = type

/-- The list reports a storm of events of a type. -/
def ReportsStorm (cs : List Correlation) (t : String) : Prop :=
  ∃ c ∈ cs, c.type = .eventStorm ∧ c.eventType = some t

/-- The memory rule reports exactly when both its types are there. -/
theorem reports_memory_iff {events : List Event} :
    Reports (correlationsOf (typeCounts events)) .memoryMultiSource ↔
      0 < countOf "edac_ce" events ∧ 0 < countOf "mce" events := by
  constructor
  · intro ⟨c, hc, htype⟩
    rcases mem_correlationsOf.mp hc with ⟨h, _⟩ | ⟨_, rfl⟩ | ⟨_, _, rfl⟩
    · exact h
    · cases htype
    · cases htype
  · exact fun h => ⟨_, mem_correlationsOf.mpr (Or.inl ⟨h, rfl⟩), rfl⟩

/-- The cascade rule reports exactly when both its types are there. -/
theorem reports_cascade_iff {events : List Event} :
    Reports (correlationsOf (typeCounts events)) .pcieMemoryCascade ↔
      0 < countOf "pcie_aer_fatal" events ∧ 0 < countOf "edac_ue" events := by
  constructor
  · intro ⟨c, hc, htype⟩
    rcases mem_correlationsOf.mp hc with ⟨_, rfl⟩ | ⟨h, _⟩ | ⟨_, _, rfl⟩
    · cases htype
    · exact h
    · cases htype
  · exact fun h => ⟨_, mem_correlationsOf.mpr (Or.inr (Or.inl ⟨h, rfl⟩)), rfl⟩

/-- A storm is reported exactly when its type occurs three times. -/
theorem reportsStorm_iff {events : List Event} {t : String} :
    ReportsStorm (correlationsOf (typeCounts events)) t ↔ 3 ≤ countOf t events := by
  constructor
  · intro ⟨c, hc, htype, hevent⟩
    rcases mem_correlationsOf.mp hc with ⟨_, rfl⟩ | ⟨_, rfl⟩ | ⟨t', h, rfl⟩
    · cases htype
    · cases htype
    · obtain rfl : t' = t := Option.some_inj.mp hevent
      exact h
  · exact fun h => ⟨_, mem_correlationsOf.mpr (Or.inr (Or.inr ⟨t, h, rfl⟩)), rfl, rfl⟩

/-! ## The documented rules -/

/-- Two events are at most `d` seconds apart. -/
def Event.Near (d : ℚ) (x y : Event) : Prop := |x.time - y.time| ≤ d

instance (d : ℚ) (x y : Event) : Decidable (x.Near d y) := inferInstanceAs (Decidable (_ ≤ _))

/-- Some event of the one type and some of the other are within `d` seconds of each other. -/
def Coincide (d : ℚ) (a b : String) (events : List Event) : Prop :=
  ∃ x ∈ events, ∃ y ∈ events, x.eventType = a ∧ y.eventType = b ∧ x.Near d y

/-- Three events of a type lie within sixty seconds. -/
def Storm (t : String) (events : List Event) : Prop :=
  ∃ three : List Event, three.Sublist (events.filter fun e => e.eventType = t) ∧
    three.length = 3 ∧ three.Pairwise (Event.Near 60)

/-- The correlations are those of the documentation. -/
structure FollowsRules (events : List Event) (cs : List Correlation) : Prop where
  memory : Reports cs .memoryMultiSource ↔ Coincide 10 "edac_ce" "mce" events
  cascade : Reports cs .pcieMemoryCascade ↔ Coincide 30 "pcie_aer_fatal" "edac_ue" events
  storm : ∀ t, ReportsStorm cs t ↔ Storm t events

/-- Whatever the rules forbid to be too far apart is near: where both types of a pair are there,
some of their events are within its time, and of three events or more of a type some three lie
within sixty seconds. -/
structure Close (events : List Event) : Prop where
  memory : 0 < countOf "edac_ce" events → 0 < countOf "mce" events →
    Coincide 10 "edac_ce" "mce" events
  cascade : 0 < countOf "pcie_aer_fatal" events → 0 < countOf "edac_ue" events →
    Coincide 30 "pcie_aer_fatal" "edac_ue" events
  storm : ∀ t, 3 ≤ countOf t events → Storm t events

section Rules

variable {events : List Event} {a b t : String} {d : ℚ}

/-- A type is counted exactly when an event has it. -/
theorem countOf_pos : 0 < countOf t events ↔ ∃ e ∈ events, e.eventType = t := by
  rw [countOf, List.count_pos_iff, List.mem_map]

/-- The count of a type is the number of its events. -/
theorem countOf_eq_length : countOf t events = (events.filter fun e => e.eventType = t).length := by
  rw [countOf, List.count, List.countP_map, List.countP_eq_length_filter]
  rfl

/-- Types which coincide are both there. -/
theorem Coincide.present (h : Coincide d a b events) :
    0 < countOf a events ∧ 0 < countOf b events := by
  obtain ⟨x, hx, y, hy, hxa, hyb, _⟩ := h
  exact ⟨countOf_pos.mpr ⟨x, hx, hxa⟩, countOf_pos.mpr ⟨y, hy, hyb⟩⟩

/-- A storm has three events. -/
theorem Storm.three_le (h : Storm t events) : 3 ≤ countOf t events := by
  obtain ⟨three, hsub, hlen, _⟩ := h
  rw [countOf_eq_length, ← hlen]
  exact hsub.length_le

/-- Where no event is older than sixty seconds nor from the future, the rule for storms is the
count. -/
theorem storm_of_past {now : ℚ} (hpast : ∀ e ∈ events, now - 60 ≤ e.time ∧ e.time ≤ now)
    (h : 3 ≤ countOf t events) : Storm t events := by
  rw [countOf_eq_length] at h
  refine ⟨(events.filter fun e => e.eventType = t).take 3, List.take_sublist _ _,
    List.length_take_of_le h, ?_⟩
  refine List.pairwise_of_forall_mem_list ?_
  intro x hx y hy
  have hx := hpast x (List.mem_of_mem_filter (List.mem_of_mem_take hx))
  have hy := hpast y (List.mem_of_mem_filter (List.mem_of_mem_take hy))
  rw [Event.Near, abs_le]
  constructor <;> linarith

/-- **The rules.**  What is detected in a buffer, at any time, follows the documented rules for
the events in its window exactly when these are close. -/
theorem detectCorrelations_follows_iff (now : ℚ) (b : EventBuffer) :
    FollowsRules (b.expire now).events (detectCorrelations now b).2 ↔
      Close (b.expire now).events := by
  rw [detectCorrelations, EventBuffer.countByType]
  constructor
  · intro ⟨hmemory, hcascade, hstorm⟩
    rw [reports_memory_iff] at hmemory
    rw [reports_cascade_iff] at hcascade
    refine ⟨fun hce hmce => hmemory.mp ⟨hce, hmce⟩, fun hf hue => hcascade.mp ⟨hf, hue⟩, ?_⟩
    exact fun t h => (hstorm t).mp (reportsStorm_iff.mpr h)
  · intro ⟨hmemory, hcascade, hstorm⟩
    refine ⟨?_, ?_, fun t => ?_⟩
    · rw [reports_memory_iff]
      exact ⟨fun h => hmemory h.1 h.2, Coincide.present⟩
    · rw [reports_cascade_iff]
      exact ⟨fun h => hcascade h.1 h.2, Coincide.present⟩
    · rw [reportsStorm_iff]
      exact ⟨hstorm t, Storm.three_le⟩

/-- A CE, and an MCE fifty seconds later. -/
def apartBuffer : EventBuffer := ⟨60, [⟨"edac_ce", some 1000⟩, ⟨"mce", some 1050⟩]⟩

/-- They are reported as one burst. -/
theorem apart_reported :
    (detectCorrelations 1050 apartBuffer).2 = [memoryMultiSource 1 1] ∧
      ¬ FollowsRules (apartBuffer.expire 1050).events (detectCorrelations 1050 apartBuffer).2 := by
  have hevents : (apartBuffer.expire 1050).events = apartBuffer.events := by decide +kernel
  have hreported : (detectCorrelations 1050 apartBuffer).2 = [memoryMultiSource 1 1] := by
    decide +kernel
  refine ⟨hreported, ?_⟩
  rw [hreported, hevents]
  intro h
  obtain ⟨x, hx, y, hy, hxa, hyb, hnear⟩ := h.memory.mp ⟨_, List.mem_singleton_self _, rfl⟩
  simp only [apartBuffer, List.mem_cons, List.not_mem_nil, or_false] at hx hy
  rcases hx with rfl | rfl
  · rcases hy with rfl | rfl
    · exact absurd hyb (by decide)
    · exact absurd hnear (by decide +kernel)
  · exact absurd hxa (by decide)

end Rules

end FaultOracle.Correlator
