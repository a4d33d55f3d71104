import Mathlib.Data.Finset.Card
import Mathlib.Data.List.Dedup
import Mathlib.Data.List.Sort
import Mathlib.Data.String.Basic
import FaultOracle.GuardedRuns
import FaultOracle.InsertionDict

/-!
# The cardinality guard

`exporter/collectors/cardinality_guard.go` admits the first `max` label maps of a metric
and rejects the others.  A map is remembered by its fingerprint, the text `k=v,` of its
pairs in the order of the keys.

`AllowLabels` has two atomic sections: it looks the fingerprint up under the read lock and,
if it is not there, looks again and admits or rejects under the write lock.  In the system
below any number of calls stand between their two sections.

The fingerprint does not depend on the order in which the map is ranged over
(`fingerprint_congr`), but a delimiter inside a value makes two maps one.  `accounted_iff`
says which runs are accounted for as they should be: those in which no map comes with the
fingerprint of another admitted one.
-/

namespace FaultOracle.Cardinality

open GuardedRuns

/-- `prometheus.Labels`, a map, with its pairs in the order in which `range` gives them this
time. -/
structure Labels where
  pairs : List (String × String)
  nodup_keys : (pairs.map Prod.fst).Nodup
deriving DecidableEq

/-- The map itself, without an order. -/
def Labels.entries (labels : Labels) : Finset (String × String) := labels.pairs.toFinset

/-- `labels[k]`. -/
def Labels.get (labels : Labels) (k : String) : String := (labels.pairs.lookup k).getD ""

/-- `fingerprint`. -/
def fingerprint (labels : Labels) : String :=
  let keys := (labels.pairs.map Prod.fst).insertionSort (· ≤ ·)
  String.join (keys.map fun k => k ++ "=" ++ labels.get k ++ ",")

/-- `CardinalityGuard`, and the series it exports.  A metric without a set of fingerprints
has an empty one. -/
structure CardinalityGuard where
  max : Nat
  seen : String → Finset String
  dropped : String → Nat
  droppedTotal : String → Nat
  currentGauge : String → Nat

/-- `NewCardinalityGuard`. -/
def newCardinalityGuard (max : Int) : CardinalityGuard where
  max := if max ≤ 0 then 1000 else max.toNat
  seen := fun _ => ∅
  dropped := fun _ => 0
  droppedTotal := fun _ => 0
  currentGauge := fun _ => 0

/-- The section of `AllowLabels` under the read lock: whether the fingerprint is there. -/
def lookUp (g : CardinalityGuard) (metricName : String) (labels : Labels) : Bool :=
  fingerprint labels ∈ g.seen metricName

/-- The section of `AllowLabels` under the write lock. -/
def allowOrDrop (g : CardinalityGuard) (metricName : String) (labels : Labels) :
    Bool × CardinalityGuard :=
  let fp := fingerprint labels
  if fp ∈ g.seen metricName then (true, g)
  else if g.max ≤ (g.seen metricName).card then
    (false, { g with
      dropped := Function.update g.dropped metricName (g.dropped metricName + 1)
      droppedTotal := Function.update g.droppedTotal metricName (g.droppedTotal metricName + 1) })
  else
    let s := insert fp (g.seen metricName)
    (true, { g with
      seen := Function.update g.seen metricName s
      currentGauge := Function.update g.currentGauge metricName s.card })

/-! ## The fingerprint -/

/-- Labels with the same entries are permutations. -/
theorem Labels.perm_of_entries_eq {labels labels' : Labels}
    (h : labels.entries = labels'.entries) : labels.pairs.Perm labels'.pairs :=
  List.perm_of_nodup_nodup_toFinset_eq (List.Nodup.of_map _ labels.nodup_keys)
    (List.Nodup.of_map _ labels'.nodup_keys) h

/-- The order of ranging does not matter to the fingerprint. -/
theorem fingerprint_congr {labels labels' : Labels} (h : labels.entries = labels'.entries) :
    fingerprint labels = fingerprint labels' := by
  have hperm := Labels.perm_of_entries_eq h
  have hkeys : (labels.pairs.map Prod.fst).insertionSort (· ≤ ·) =
      (labels'.pairs.map Prod.fst).insertionSort (· ≤ ·) :=
    (((List.perm_insertionSort _ _).trans (hperm.map Prod.fst)).trans
      (List.perm_insertionSort _ _).symm).eq_of_pairwise'
      (List.pairwise_insertionSort _ _) (List.pairwise_insertionSort _ _)
  have hget : labels.get = labels'.get := by
    funext k
    have hlookup : labels.pairs.lookup k = labels'.pairs.lookup k := by
      ext v
      rw [← InsertionDict.mem_iff_lookup labels.nodup_keys,
        ← InsertionDict.mem_iff_lookup labels'.nodup_keys, hperm.mem_iff]
    rw [Labels.get, hlookup, Labels.get]
  rw [fingerprint, hkeys, hget]
  rfl

/-! ## Calls in progress -/

/-- A call that has been answered. -/
structure Decision where
  metricName : String
  labels : Labels
  allowed : Bool
deriving DecidableEq

/-- The guard, the calls between their two sections, and the answers given so far. -/
structure System where
  guard : CardinalityGuard
  waiting : List (String × Labels)
  decided : List Decision

/-- The section that runs next: the first one of a new call, or the second one of the
`i`-th waiting call. -/
inductive Section
  | reading (metricName : String) (labels : Labels)
  | writing (i : Nat)

/-- The section which ends the call with an answer. -/
def answer (s : System) (metricName : String) (labels : Labels) : System :=
  let (allowed, g) := allowOrDrop s.guard metricName labels
  { s with guard := g, decided := s.decided ++ [⟨metricName, labels, allowed⟩] }

/-- One section of one call.  What a successful look-up answers is what the second section
would answer. -/
def step (s : System) : Section → System
  | .reading metricName labels =>
      if lookUp s.guard metricName labels then
        { s with decided := s.decided ++ [⟨metricName, labels, true⟩] }
      else { s with waiting := s.waiting ++ [(metricName, labels)] }
  | .writing i =>
      match s.waiting[i]? with
      | none => s
      | some (metricName, labels) =>
          answer { s with waiting := s.waiting.eraseIdx i } metricName labels

def start (max : Int) : System where
  guard := newCardinalityGuard max
  waiting := []
  decided := []

/-! ## The accounts -/

/-- The label maps of the answered calls of a metric, in the order of the answers. -/
def mapsSeen (decided : List Decision) (metricName : String) :
    List (Finset (String × String)) :=
  (decided.filter fun d => d.metricName == metricName).map fun d => d.labels.entries

/-- The first `max` distinct maps of a metric. -/
def firstMaps (s : System) (metricName : String) : List (Finset (String × String)) :=
  (mapsSeen s.decided metricName).eraseDups.take s.guard.max

/-- What the guard promises: the maps admitted are the first `max` distinct ones, at every
call; the others are rejected and counted; and each admitted map is held for itself. -/
structure Accounted (s : System) : Prop where
  allowed_iff : ∀ d ∈ s.decided,
    d.allowed = true ↔ d.labels.entries ∈ firstMaps s d.metricName
  dropped_eq : ∀ metricName, s.guard.dropped metricName =
    s.decided.countP fun d => d.metricName == metricName && !d.allowed
  held : ∀ metricName, (s.guard.seen metricName).card = (firstMaps s metricName).length

/-- No other map among the first of its metric has the fingerprint of this one. -/
def ToldApart (s : System) (metricName : String) (labels : Labels) : Prop :=
  ∀ other : Labels, other.entries ∈ firstMaps s metricName →
    fingerprint other = fingerprint labels → other.entries = labels.entries

/-- The call of the section that runs next brings a map which is told apart. -/
def BringsToldApart (s : System) : Section → Prop
  | .reading metricName labels => ToldApart s metricName labels
  | .writing i => ∀ call ∈ s.waiting[i]?, ToldApart s call.1 call.2

/-- The fingerprints held are those of the first maps, one for each. -/
structure Held (s : System) : Prop where
  mem_seen : ∀ metricName fp, fp ∈ s.guard.seen metricName ↔
    ∃ labels : Labels, labels.entries ∈ firstMaps s metricName ∧ fingerprint labels = fp
  told_apart : ∀ metricName (labels : Labels), labels.entries ∈ firstMaps s metricName →
    ToldApart s metricName labels

section Accounts

variable {s : System} {metricName other : String} {labels : Labels}

/-- One more element, among the first distinct ones. -/
theorem take_eraseDups_append {α : Type*} [DecidableEq α] (xs : List α) (x : α) (n : Nat) :
    (xs ++ [x]).eraseDups.take n =
      if x ∈ xs.eraseDups.take n ∨ n ≤ (xs.eraseDups.take n).length then xs.eraseDups.take n
      else xs.eraseDups.take n ++ [x] := by
  rw [List.eraseDups_append, List.removeAll]
  split
  · rename_i h
    rcases h with hmem | hfull
    · have hx : x ∈ xs := List.mem_eraseDups.mp (List.mem_of_mem_take hmem)
      simp [hx]
    · have hlen : n ≤ xs.eraseDups.length := by
        rw [List.length_take] at hfull
        omega
      rw [List.take_append_of_le_length hlen]
  · rename_i h
    obtain ⟨hmem, hfull⟩ := not_or.mp h
    have hlen : xs.eraseDups.length < n := by
      rw [List.length_take] at hfull
      omega
    rw [List.take_of_length_le hlen.le] at hmem ⊢
    have hx : x ∉ xs := fun hx => hmem (List.mem_eraseDups.mpr hx)
    have hone : ([x].filter fun a => !xs.elem a) = [x] := by simp [hx]
    have hdups : [x].eraseDups = [x] := by simp [List.eraseDups_cons]
    rw [hone, hdups]
    apply List.take_of_length_le
    rw [List.length_append, List.length_singleton]
    exact hlen

/-- An answer does not change the bound. -/
@[simp] theorem answer_max : (answer s metricName labels).guard.max = s.guard.max := by
  unfold answer allowOrDrop
  dsimp only
  split
  · rfl
  · split <;> rfl

/-- An answer is added to the decisions. -/
theorem answer_decided : (answer s metricName labels).decided =
    s.decided ++ [⟨metricName, labels, (allowOrDrop s.guard metricName labels).1⟩] := rfl

/-- An answer changes the guard as the code does. -/
theorem answer_guard :
    (answer s metricName labels).guard = (allowOrDrop s.guard metricName labels).2 := rfl

/-- A successful look-up answers as the second section would. -/
theorem step_reading_of_seen (h : lookUp s.guard metricName labels = true) :
    step s (.reading metricName labels) = answer s metricName labels := by
  have hseen : fingerprint labels ∈ s.guard.seen metricName := by simpa [lookUp] using h
  simp [step, h, answer, allowOrDrop, hseen]

/-- An answer about one metric leaves the others. -/
theorem firstMaps_answer_ne (h : other ≠ metricName) :
    firstMaps (answer s metricName labels) other = firstMaps s other := by
  have hne : (metricName == other) = false := beq_eq_false_iff_ne.mpr h.symm
  simp [firstMaps, answer_decided, mapsSeen, hne]

/-- An answer adds new labels while there is room. -/
theorem firstMaps_answer :
    firstMaps (answer s metricName labels) metricName =
      if labels.entries ∈ firstMaps s metricName ∨
          s.guard.max ≤ (firstMaps s metricName).length then firstMaps s metricName
      else firstMaps s metricName ++ [labels.entries] := by
  have hmaps : mapsSeen (answer s metricName labels).decided metricName =
      mapsSeen s.decided metricName ++ [labels.entries] := by
    simp [answer_decided, mapsSeen]
  rw [firstMaps, answer_max, hmaps]
  exact take_eraseDups_append _ _ _

/-- A map that comes with a fingerprint held by the guard is admitted already, if it is
told apart. -/
theorem mem_firstMaps_of_seen (hheld : Held s) (hapart : ToldApart s metricName labels)
    (hseen : fingerprint labels ∈ s.guard.seen metricName) :
    labels.entries ∈ firstMaps s metricName := by
  obtain ⟨other, hmem, hfp⟩ := (hheld.mem_seen metricName _).mp hseen
  exact hapart other hmem hfp ▸ hmem

theorem notMem_firstMaps_of_unseen (hheld : Held s)
    (hseen : fingerprint labels ∉ s.guard.seen metricName) :
    labels.entries ∉ firstMaps s metricName :=
  fun hmem => hseen ((hheld.mem_seen metricName _).mpr ⟨labels, hmem, rfl⟩)

/-- While there is room, every map seen is among the first. -/
theorem mem_firstMaps_of_room (h : (firstMaps s metricName).length < s.guard.max)
    {entries : Finset (String × String)} :
    entries ∈ firstMaps s metricName ↔ entries ∈ mapsSeen s.decided metricName := by
  have hlen : (mapsSeen s.decided metricName).eraseDups.length ≤ s.guard.max := by
    rw [firstMaps, List.length_take] at h
    omega
  rw [firstMaps, List.take_of_length_le hlen, List.mem_eraseDups]

/-- The labels of a decision are among those seen. -/
theorem entries_mem_mapsSeen {decided : List Decision} {d : Decision} (h : d ∈ decided) :
    d.labels.entries ∈ mapsSeen decided d.metricName :=
  List.mem_map.mpr ⟨d, List.mem_filter.mpr ⟨h, beq_self_eq_true _⟩, rfl⟩

/-- What an answer does, for a map which is told apart: it is admitted already, or there
is no room for it, or it is admitted now. -/
theorem answer_cases (hheld : Held s) (hs : Accounted s)
    (hapart : ToldApart s metricName labels) :
    (allowOrDrop s.guard metricName labels = (true, s.guard) ∧
      labels.entries ∈ firstMaps s metricName ∧
      firstMaps (answer s metricName labels) metricName = firstMaps s metricName) ∨
    ((allowOrDrop s.guard metricName labels).1 = false ∧
      (allowOrDrop s.guard metricName labels).2.seen = s.guard.seen ∧
      (allowOrDrop s.guard metricName labels).2.dropped =
        Function.update s.guard.dropped metricName (s.guard.dropped metricName + 1) ∧
      labels.entries ∉ firstMaps s metricName ∧
      firstMaps (answer s metricName labels) metricName = firstMaps s metricName) ∨
    ((allowOrDrop s.guard metricName labels).1 = true ∧
      (allowOrDrop s.guard metricName labels).2.seen = Function.update s.guard.seen metricName
        (insert (fingerprint labels) (s.guard.seen metricName)) ∧
      (allowOrDrop s.guard metricName labels).2.dropped = s.guard.dropped ∧
      fingerprint labels ∉ s.guard.seen metricName ∧
      labels.entries ∉ mapsSeen s.decided metricName ∧
      firstMaps (answer s metricName labels) metricName =
        firstMaps s metricName ++ [labels.entries]) := by
  rw [firstMaps_answer]
  by_cases hseen : fingerprint labels ∈ s.guard.seen metricName
  · have hmem := mem_firstMaps_of_seen hheld hapart hseen
    exact Or.inl ⟨by simp [allowOrDrop, hseen], hmem, if_pos (Or.inl hmem)⟩
  · have hnew := notMem_firstMaps_of_unseen hheld hseen
    by_cases hfull : s.guard.max ≤ (s.guard.seen metricName).card
    · have hlen : s.guard.max ≤ (firstMaps s metricName).length := hs.held metricName ▸ hfull
      refine Or.inr (Or.inl ⟨?_, ?_, ?_, hnew, if_pos (Or.inr hlen)⟩) <;>
        simp [allowOrDrop, hseen, hfull]
    · have hlen : ¬ s.guard.max ≤ (firstMaps s metricName).length := hs.held metricName ▸ hfull
      have habsent : labels.entries ∉ mapsSeen s.decided metricName :=
        fun hmem => hnew ((mem_firstMaps_of_room (not_le.mp hlen)).mpr hmem)
      refine Or.inr (Or.inr ⟨?_, ?_, ?_, hseen, habsent, if_neg (not_or.mpr ⟨hnew, hlen⟩)⟩) <;>
        simp [allowOrDrop, hseen, hfull]

/-- An answer keeps the decisions accounted for. -/
theorem accounted_answer (hheld : Held s) (hs : Accounted s)
    (hapart : ToldApart s metricName labels) : Accounted (answer s metricName labels) := by
  have hold : ∀ d ∈ s.decided,
      (d.labels.entries ∈ firstMaps (answer s metricName labels) d.metricName ↔
        d.labels.entries ∈ firstMaps s d.metricName) := by
    intro d hd
    by_cases hm : d.metricName = metricName
    · have hseen := entries_mem_mapsSeen hd
      rw [hm] at hseen ⊢
      rcases answer_cases hheld hs hapart with h | h | h
      · rw [h.2.2]
      · rw [h.2.2.2.2]
      · obtain ⟨-, -, -, -, habsent, hfirst⟩ := h
        have hne : d.labels.entries ≠ labels.entries := fun heq => habsent (heq ▸ hseen)
        simp [hfirst, hne]
    · rw [firstMaps_answer_ne hm]
  refine ⟨?_, ?_, ?_⟩
  · intro d hd
    rw [answer_decided, List.mem_append, List.mem_singleton] at hd
    rcases hd with hd | rfl
    · rw [hold d hd]
      exact hs.allowed_iff d hd
    · rcases answer_cases hheld hs hapart with h | h | h
      · simp [h.1, h.2.1, h.2.2]
      · simp [h.1, h.2.2.2.1, h.2.2.2.2]
      · simp [h.1, h.2.2.2.2.2]
  · intro other
    rw [answer_decided, answer_guard, List.countP_append, ← hs.dropped_eq other]
    rcases answer_cases hheld hs hapart with h | h | h
    · simp [h.1]
    · rw [h.2.2.1, h.1]
      by_cases hm : metricName = other
      · simp [hm]
      · simp [hm, Function.update_of_ne (Ne.symm hm)]
    · simp [h.1, h.2.2.1]
  · intro other
    rw [answer_guard]
    by_cases hm : other = metricName
    · subst hm
      rcases answer_cases hheld hs hapart with h | h | h
      · rw [h.2.2, h.1]
        exact hs.held other
      · rw [h.2.2.2.2, h.2.1]
        exact hs.held other
      · obtain ⟨-, hseen, -, hnew, -, hfirst⟩ := h
        rw [hfirst, hseen, Function.update_self, Finset.card_insert_of_notMem hnew,
          hs.held other, List.length_append, List.length_singleton]
    · rw [firstMaps_answer_ne hm]
      rcases answer_cases hheld hs hapart with h | h | h
      · rw [h.1]
        exact hs.held other
      · rw [h.2.1]
        exact hs.held other
      · rw [h.2.1, Function.update_of_ne hm]
        exact hs.held other

/-- Nothing changes for the fingerprints held while the first maps stay the same. -/
theorem held_of_same {s' : System} (hfirst : ∀ other, firstMaps s' other = firstMaps s other)
    (hseen : s'.guard.seen = s.guard.seen) (hheld : Held s) : Held s' where
  mem_seen := by
    intro other fp
    rw [hfirst, hseen]
    exact hheld.mem_seen other fp
  told_apart := by
    intro other l hl l' hl'
    rw [hfirst] at hl hl'
    exact hheld.told_apart other l hl l' hl'

/-- The first maps of the other metrics are those from before. -/
theorem firstMaps_answer_of_self
    (h : firstMaps (answer s metricName labels) metricName = firstMaps s metricName)
    (other : String) : firstMaps (answer s metricName labels) other = firstMaps s other := by
  by_cases hm : other = metricName
  · rw [hm, h]
  · rw [firstMaps_answer_ne hm]

/-- An answer keeps the sets held by the guard. -/
theorem held_answer (hheld : Held s) (hs : Accounted s)
    (hapart : ToldApart s metricName labels) : Held (answer s metricName labels) := by
  rcases answer_cases hheld hs hapart with h | h | h
  · exact held_of_same (firstMaps_answer_of_self h.2.2) (by rw [answer_guard, h.1]) hheld
  · exact held_of_same (firstMaps_answer_of_self h.2.2.2.2) h.2.1 hheld
  · obtain ⟨-, hseen, -, hnew, -, hfirst⟩ := h
    refine ⟨?_, ?_⟩
    · intro other fp
      rw [answer_guard, hseen]
      by_cases hm : other = metricName
      · subst hm
        rw [Function.update_self, Finset.mem_insert, hheld.mem_seen, hfirst]
        constructor
        · rintro (rfl | ⟨l, hl, rfl⟩)
          · exact ⟨labels, by simp, rfl⟩
          · exact ⟨l, by simp [hl], rfl⟩
        · rintro ⟨l, hl, rfl⟩
          rcases List.mem_append.mp hl with hl | hl
          · exact Or.inr ⟨l, hl, rfl⟩
          · exact Or.inl (fingerprint_congr (List.mem_singleton.mp hl))
      · rw [Function.update_of_ne hm, firstMaps_answer_ne hm]
        exact hheld.mem_seen other fp
    · intro other l hl
      unfold ToldApart
      by_cases hm : other = metricName
      · subst hm
        rw [hfirst] at hl ⊢
        intro l' hl' hfp
        rcases List.mem_append.mp hl with hl | hl <;> rcases List.mem_append.mp hl' with hl' | hl'
        · exact hheld.told_apart other l hl l' hl' hfp
        · -- the new fingerprint is not one of those held
          have hnewfp := fingerprint_congr (List.mem_singleton.mp hl')
          exact absurd ((hheld.mem_seen other _).mpr ⟨l, hl, hfp.symm.trans hnewfp⟩) hnew
        · have hnewfp := fingerprint_congr (List.mem_singleton.mp hl)
          exact absurd ((hheld.mem_seen other _).mpr ⟨l', hl', hfp.trans hnewfp⟩) hnew
        · rw [List.mem_singleton.mp hl, List.mem_singleton.mp hl']
      · rw [firstMaps_answer_ne hm] at hl ⊢
        exact hheld.told_apart other l hl

/-- A map which is not told apart breaks the accounts. -/
theorem toldApart_of_accounted_answer (hheld : Held s) (hs : Accounted s)
    (hnext : Accounted (answer s metricName labels)) : ToldApart s metricName labels := by
  by_cases hmem : labels.entries ∈ firstMaps s metricName
  · exact hheld.told_apart metricName labels hmem
  · intro other hother hfp
    exfalso
    have hseen : fingerprint labels ∈ s.guard.seen metricName :=
      (hheld.mem_seen metricName _).mpr ⟨other, hother, hfp⟩
    have hallow : allowOrDrop s.guard metricName labels = (true, s.guard) := by
      simp [allowOrDrop, hseen]
    have hlen : (firstMaps (answer s metricName labels) metricName).length =
        (firstMaps s metricName).length := by
      rw [← hnext.held, ← hs.held, answer_guard, hallow]
    have hallowed : labels.entries ∈ firstMaps (answer s metricName labels) metricName := by
      refine (hnext.allowed_iff ⟨metricName, labels, true⟩ ?_).mp rfl
      simp [answer_decided, hallow]
    rw [firstMaps_answer] at hlen hallowed
    split at hallowed
    · exact hmem hallowed
    · rename_i hroom
      rw [if_neg hroom, List.length_append, List.length_singleton] at hlen
      omega

/-- A section keeps the accounts exactly when the map it brings is told apart. -/
theorem accounted_step_iff (hheld : Held s) (hs : Accounted s) (a : Section) :
    Accounted (step s a) ↔ BringsToldApart s a := by
  cases a with
  | reading metricName labels =>
      by_cases hhit : lookUp s.guard metricName labels = true
      · rw [step_reading_of_seen hhit]
        exact ⟨toldApart_of_accounted_answer hheld hs, accounted_answer hheld hs⟩
      · have hstep : Accounted (step s (.reading metricName labels)) := by
          rw [step, if_neg hhit]
          exact ⟨hs.allowed_iff, hs.dropped_eq, hs.held⟩
        refine iff_of_true hstep ?_
        intro other hother hfp
        have hseen := (hheld.mem_seen metricName _).mpr ⟨other, hother, hfp⟩
        exact absurd (by simpa [lookUp] using hseen) hhit
  | writing i =>
      cases hcall : s.waiting[i]? with
      | none => simp [step, BringsToldApart, hcall, hs]
      | some call =>
          have hstep : step s (.writing i) =
              answer { s with waiting := s.waiting.eraseIdx i } call.1 call.2 := by
            simp [step, hcall]
          have hheld' : Held { s with waiting := s.waiting.eraseIdx i } :=
            ⟨hheld.mem_seen, hheld.told_apart⟩
          have hs' : Accounted { s with waiting := s.waiting.eraseIdx i } :=
            ⟨hs.allowed_iff, hs.dropped_eq, hs.held⟩
          rw [hstep]
          constructor
          · intro hnext other hother
            obtain rfl : call = other := Option.some.inj (hcall.symm.trans hother)
            have hapart := toldApart_of_accounted_answer hheld' hs' hnext
            exact hapart
          · intro hapart
            exact accounted_answer hheld' hs' (hapart call hcall)

/-- A step keeps the sets held by the guard. -/
theorem held_step (hheld : Held s) (hs : Accounted s) {a : Section}
    (hapart : BringsToldApart s a) : Held (step s a) := by
  cases a with
  | reading metricName labels =>
      by_cases hhit : lookUp s.guard metricName labels = true
      · rw [step_reading_of_seen hhit]
        exact held_answer hheld hs hapart
      · rw [step, if_neg hhit]
        exact ⟨hheld.mem_seen, hheld.told_apart⟩
  | writing i =>
      cases hcall : s.waiting[i]? with
      | none => simpa [step, hcall] using hheld
      | some call =>
          have hstep : step s (.writing i) =
              answer { s with waiting := s.waiting.eraseIdx i } call.1 call.2 := by
            simp [step, hcall]
          rw [hstep]
          exact held_answer ⟨hheld.mem_seen, hheld.told_apart⟩
            ⟨hs.allowed_iff, hs.dropped_eq, hs.held⟩ (hapart call hcall)

end Accounts

theorem accounted_start (max : Int) : Accounted (start max) where
  allowed_iff := by
    intro d hd
    cases hd
  dropped_eq := fun _ => rfl
  held := by
    intro metricName
    simp [start, newCardinalityGuard, firstMaps, mapsSeen]

theorem held_start (max : Int) : Held (start max) where
  mem_seen := by
    intro metricName fp
    simp [start, newCardinalityGuard, firstMaps, mapsSeen]
  told_apart := by
    intro metricName labels hmem
    simp [start, firstMaps, mapsSeen] at hmem

/-- **The accounts of a run** hold in every state exactly when no section brings a map with
the fingerprint of another one among the first of its metric. -/
theorem accounted_iff (max : Int) (run : List Section) :
    Throughout step Accounted (start max) run ↔ Meets step BringsToldApart (start max) run :=
  throughout_iff_meets Held
    (fun _ a hheld hs hnext => held_step hheld hs ((accounted_step_iff hheld hs a).mp hnext))
    (fun _ a hheld hs => accounted_step_iff hheld hs a)
    (held_start max) (accounted_start max) run

/-- The label map `a="1,b=2"`. -/
def delimiterInValue : Labels := ⟨[("a", "1,b=2")], by decide⟩

/-- The label map `a="1", b="2"`. -/
def twoLabels : Labels := ⟨[("b", "2"), ("a", "1")], by decide⟩

/-- The label map `c="3"`. -/
def thirdLabels : Labels := ⟨[("c", "3")], by decide⟩

/-- A first call, and calls with the two maps of one fingerprint and with a third map. -/
def mergingRun : List Section :=
  [.reading "m" delimiterInValue, .writing 0, .reading "m" twoLabels, .reading "m" thirdLabels,
    .writing 0]

/-- Two maps with one fingerprint are held as one: a guard for two maps admits a third. -/
theorem delimiter_merges_maps : ¬ Throughout step Accounted (start 2) mergingRun := by
  intro h
  have hthird : (⟨"m", thirdLabels, true⟩ : Decision) ∈
      (mergingRun.foldl step (start 2)).decided := by decide +kernel
  have hadmitted := (h.at_end.allowed_iff _ hthird).mp rfl
  revert hadmitted
  decide +kernel

end FaultOracle.Cardinality
