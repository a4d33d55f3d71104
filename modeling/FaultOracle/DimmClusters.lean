import FaultOracle.KeyedFolds
import FaultOracle.SampleMoments

/-!
# Clusters of failing DIMMs

`aging/dimm_cluster_analysis.py` groups the DIMMs of a fleet by vendor and part, and by date code,
and reports the groups whose failure rate is at least three times that of the fleet.

`alerts_spec` says which groups these are, in exact arithmetic.  A rate is an average, so the
groups of one kind that are reported hold at most a third of the fleet, whatever the rates are.
-/

namespace FaultOracle.Clusters

open InsertionDict SampleMoments

/-! ## The analysis -/

/-- `DIMMRecord`. -/
structure DIMMRecord (F : Type*) where
  serial : String
  vendor : String
  partNumber : String
  dateCode : String
  node : String
  slot : String
  ceCount : Int
  ueCount : Int
  failureProbability : F

/-- `ClusterAlert`. -/
structure ClusterAlert (F : Type*) where
  clusterKey : String
  clusterType : String
  affectedCount : Nat
  fleetAverageRate : F
  clusterRate : F
  severity : String

section Analysis

variable {F : Type*} [Field F] [LinearOrder F]

def threshold : F := 3

/-- `_severity`. -/
def severity (ratio : F) : String :=
  if 10 ≤ ratio then "critical" else if 5 ≤ ratio then "high" else "medium"

/-- `_fleet_avg`. -/
def fleetAvg (dimms : List (DIMMRecord F)) : F :=
  if dimms = [] then 0 else total DIMMRecord.failureProbability dimms / dimms.length

/-- The body of the loop of `_check_group`. -/
def checkMembers (fleet : F) (clusterType : String) (group : String × List (DIMMRecord F)) :
    Option (ClusterAlert F) :=
  let rate := total DIMMRecord.failureProbability group.2 / group.2.length
  let ratio := rate / fleet
  if threshold ≤ ratio then
    some ⟨group.1, clusterType, group.2.length, fleet, rate, severity ratio⟩
  else none

/-- `_check_group`. -/
def checkGroup (groups : List (String × List (DIMMRecord F))) (fleet : F) (clusterType : String) :
    List (ClusterAlert F) :=
  if fleet = 0 then [] else groups.filterMap (checkMembers fleet clusterType)

def vendorKey (d : DIMMRecord F) : String := s!"{d.vendor}|{d.partNumber}"

/-- `analyze_clusters`. -/
def analyzeClusters (dimms : List (DIMMRecord F)) : List (ClusterAlert F) :=
  if dimms = [] then []
  else
    let fleet := fleetAvg dimms
    let byVendor := collect vendorKey (fun d => [d]) dimms
    let byDate := collect DIMMRecord.dateCode (fun d => [d]) dimms
    checkGroup byVendor fleet "vendor" ++ checkGroup byDate fleet "date_code"

end Analysis

/-! ## Groups -/

section Groups

variable {α F : Type*} [Field F] [LinearOrder F] [IsStrictOrderedRing F]
variable {f : α → F} {xs : List α} {key : α → String}

omit [LinearOrder F] [IsStrictOrderedRing F] in
/-- Two parts of a list, and the rest. -/
theorem total_filter_add (p q : α → Bool) (hdisjoint : ∀ x, p x = true → q x = false) :
    total f (xs.filter p) + total f (xs.filter q) = total f (xs.filter fun x => p x || q x) := by
  induction xs with
  | nil => simp [total]
  | cons x xs ih =>
      cases hp : p x with
      | true =>
          have hq := hdisjoint x hp
          simp only [List.filter_cons, hp, hq, Bool.true_or, if_true, Bool.false_eq_true,
            if_false, total_cons, ← ih]
          ring
      | false =>
          cases hq : q x with
          | true =>
              simp only [List.filter_cons, hp, hq, Bool.false_or, if_true, Bool.false_eq_true,
                if_false, total_cons, ← ih]
              ring
          | false =>
              simp only [List.filter_cons, hp, hq, Bool.false_or, Bool.false_eq_true, if_false, ← ih]

omit [LinearOrder F] [IsStrictOrderedRing F] in
/-- The totals of some groups are that of the elements in them. -/
theorem sum_total_groups {ks : List String} (hnodup : ks.Nodup) :
    (ks.map fun k => total f (xs.filter fun x => key x == k)).sum =
      total f (xs.filter fun x => ks.contains (key x)) := by
  induction ks with
  | nil => simp [total]
  | cons k ks ih =>
      obtain ⟨hk, hrest⟩ := List.nodup_cons.mp hnodup
      rw [List.map_cons, List.sum_cons, ih hrest, total_filter_add]
      · congr 1
      · intro x hx
        rw [beq_iff_eq] at hx
        simpa [hx] using hk

/-- A part is no more than the whole, where nothing is negative. -/
theorem total_filter_le (hf : ∀ x ∈ xs, 0 ≤ f x) (p : α → Bool) :
    total f (xs.filter p) ≤ total f xs := by
  induction xs with
  | nil => exact le_rfl
  | cons x xs ih =>
      obtain ⟨hx, hrest⟩ := List.forall_mem_cons.mp hf
      rw [List.filter_cons]
      split
      · rw [total_cons, total_cons]
        exact add_le_add_right (ih hrest) _
      · rw [total_cons]
        exact (ih hrest).trans (le_add_of_nonneg_left hx)

/-- **Groups far above the average are few.**  Groups whose averages are at least `c` times that
of the whole hold at most the `c`-th part of it. -/
theorem mul_length_groups_le {ks : List String} {c : F} (hnodup : ks.Nodup)
    (hf : ∀ x ∈ xs, 0 ≤ f x) (hpos : 0 < mean f xs)
    (hmeans : ∀ k ∈ ks, c * mean f xs ≤ mean f (xs.filter fun x => key x == k)) :
    c * (ks.map fun k => ((xs.filter fun x => key x == k).length : F)).sum ≤ xs.length := by
  have hne : xs ≠ [] := by
    rintro rfl
    simp [mean] at hpos
  have hgroup : ∀ k ∈ ks, c * mean f xs * ((xs.filter fun x => key x == k).length : F) ≤
      total f (xs.filter fun x => key x == k) := by
    intro k hk
    by_cases hempty : (xs.filter fun x => key x == k) = []
    · simp [hempty]
    · rw [← length_mul_mean hempty f, mul_comm]
      exact mul_le_mul_of_nonneg_left (hmeans k hk) (Nat.cast_nonneg _)
  have hsum : mean f xs * (c * (ks.map fun k =>
      ((xs.filter fun x => key x == k).length : F)).sum) ≤ mean f xs * xs.length :=
    calc mean f xs * (c * (ks.map fun k => ((xs.filter fun x => key x == k).length : F)).sum)
        = (ks.map fun k => c * mean f xs * ((xs.filter fun x => key x == k).length : F)).sum := by
          rw [List.sum_map_mul_left]
          ring
      _ ≤ (ks.map fun k => total f (xs.filter fun x => key x == k)).sum := List.sum_le_sum hgroup
      _ = total f (xs.filter fun x => ks.contains (key x)) := sum_total_groups hnodup
      _ ≤ total f xs := total_filter_le hf _
      _ = mean f xs * xs.length := by rw [← length_mul_mean hne f, mul_comm]
  exact le_of_mul_le_mul_left hsum hpos

end Groups

/-! ## The alerts -/

section Alerts

variable {F : Type*} [Field F] [LinearOrder F] [IsStrictOrderedRing F]
variable {dimms : List (DIMMRecord F)} {key : DIMMRecord F → String} {type : String}

/-- The DIMMs of a group. -/
def members (key : DIMMRecord F → String) (dimms : List (DIMMRecord F)) (k : String) :
    List (DIMMRecord F) := dimms.filter fun d => key d == k

/-- The rate of some DIMMs. -/
def rate (dimms : List (DIMMRecord F)) : F := mean DIMMRecord.failureProbability dimms

/-- The group is far above the fleet. -/
def Clustered (key : DIMMRecord F → String) (dimms : List (DIMMRecord F)) (k : String) : Prop :=
  3 * rate dimms ≤ rate (members key dimms k)

instance (key : DIMMRecord F → String) (dimms : List (DIMMRecord F)) :
    DecidablePred (Clustered key dimms) := fun _ => inferInstanceAs (Decidable (_ ≤ _))

/-- The alert of a group. -/
def alertOf (key : DIMMRecord F → String) (type : String) (dimms : List (DIMMRecord F))
    (k : String) : ClusterAlert F :=
  ⟨k, type, (members key dimms k).length, rate dimms, rate (members key dimms k),
    severity (rate (members key dimms k) / rate dimms)⟩

/-- The groups of one kind that are reported. -/
def clusters (key : DIMMRecord F → String) (dimms : List (DIMMRecord F)) : List String :=
  (dimms.map key).eraseDups.filter fun k => decide (Clustered key dimms k)

/-- What the loop over the groups reports of one of them. -/
theorem checkMembers_group (hpos : 0 < rate dimms) (k : String) :
    checkMembers (rate dimms) type (k, (dimms.filter fun d => key d == k).flatMap fun d => [d]) =
      if decide (Clustered key dimms k) then some (alertOf key type dimms k) else none := by
  have hmembers : (dimms.filter fun d => key d == k).flatMap (fun d => [d]) =
      members key dimms k := by simp [members]
  have hratio : threshold ≤ rate (members key dimms k) / rate dimms ↔ Clustered key dimms k := by
    rw [le_div_iff₀ hpos, Clustered, threshold]
  have hcheck : checkMembers (rate dimms) type (k, members key dimms k) =
      if threshold ≤ rate (members key dimms k) / rate dimms then some (alertOf key type dimms k)
      else none := rfl
  rw [hmembers, hcheck]
  by_cases h : Clustered key dimms k
  · rw [if_pos (hratio.mpr h), if_pos (decide_eq_true h)]
  · rw [if_neg (mt hratio.mp h), if_neg (by simpa using h)]

/-- **One kind of group.** -/
theorem checkGroup_collect (hpos : 0 < rate dimms) :
    checkGroup (collect key (fun d => [d]) dimms) (rate dimms) type =
      (clusters key dimms).map (alertOf key type dimms) := by
  rw [checkGroup, if_neg hpos.ne', collect_eq, clusters, List.filterMap_map]
  induction (dimms.map key).eraseDups with
  | nil => rfl
  | cons k ks ih =>
      rw [List.filterMap_cons, Function.comp_apply, checkMembers_group hpos, List.filter_cons, ih]
      by_cases h : decide (Clustered key dimms k) = true
      · simp [h]
      · simp [h]

omit [IsStrictOrderedRing F] in
theorem mem_clusters {k : String} :
    k ∈ clusters key dimms ↔ (∃ d ∈ dimms, key d = k) ∧ Clustered key dimms k := by
  rw [clusters, List.mem_filter, List.mem_eraseDups, List.mem_map, decide_eq_true_eq]

omit [IsStrictOrderedRing F] in
theorem nodup_clusters : (clusters key dimms).Nodup := (nodup_eraseDups _).filter _

/-- The groups of one kind that are reported hold at most a third of the fleet. -/
theorem three_mul_clusters_le (hp : ∀ d ∈ dimms, 0 ≤ d.failureProbability)
    (hpos : 0 < rate dimms) :
    3 * ((clusters key dimms).map fun k => (members key dimms k).length).sum ≤ dimms.length := by
  have h : (3 : F) * ((clusters key dimms).map fun k =>
      ((members key dimms k).length : F)).sum ≤ dimms.length :=
    mul_length_groups_le nodup_clusters hp hpos fun k hk => (mem_clusters.mp hk).2
  have hcast : ((3 * ((clusters key dimms).map fun k => (members key dimms k).length).sum : Nat)
      : F) ≤ (dimms.length : Nat) := by
    rw [Nat.cast_mul, ← Nat.coe_castRingHom, map_list_sum, List.map_map]
    exact_mod_cast h
  exact_mod_cast hcast

/-- **What the analysis reports.**  In a fleet whose failure probabilities are not negative, and
not all of them zero, it reports the groups of each kind whose rate is at least three times that
of the fleet, each once with its members; and those of one kind hold at most a third of the
fleet. -/
theorem alerts_spec (hp : ∀ d ∈ dimms, 0 ≤ d.failureProbability)
    (hsome : ∃ d ∈ dimms, d.failureProbability ≠ 0) :
    analyzeClusters dimms =
        (clusters vendorKey dimms).map (alertOf vendorKey "vendor" dimms) ++
          (clusters DIMMRecord.dateCode dimms).map
            (alertOf DIMMRecord.dateCode "date_code" dimms) ∧
      ∀ type ∈ ["vendor", "date_code"],
        3 * (((analyzeClusters dimms).filter (·.clusterType = type)).map
          ClusterAlert.affectedCount).sum ≤ dimms.length := by
  obtain ⟨d, hd, hne⟩ := hsome
  have hnil : dimms ≠ [] := List.ne_nil_of_mem hd
  have hpos : 0 < rate dimms := by
    have htotal : total DIMMRecord.failureProbability dimms ≠ 0 := fun hzero =>
      hne ((total_eq_zero_iff hp).mp hzero d hd)
    exact div_pos (lt_of_le_of_ne (total_nonneg hp) (Ne.symm htotal))
      (Nat.cast_pos.mpr (List.length_pos_of_ne_nil hnil))
  have halerts : analyzeClusters dimms =
      (clusters vendorKey dimms).map (alertOf vendorKey "vendor" dimms) ++
        (clusters DIMMRecord.dateCode dimms).map
          (alertOf DIMMRecord.dateCode "date_code" dimms) := by
    have hfleet : fleetAvg dimms = rate dimms := if_neg hnil
    rw [analyzeClusters, if_neg hnil]
    simp only [hfleet, checkGroup_collect hpos]
  refine ⟨halerts, fun type htype => ?_⟩
  have hkept : ∀ (key : DIMMRecord F → String) (own : String),
      ((clusters key dimms).map (alertOf key own dimms)).filter (·.clusterType = type) =
        if own = type then (clusters key dimms).map (alertOf key own dimms) else [] := by
    intro key own
    split
    · next h => simp [List.filter_eq_self, alertOf, h]
    · next h => simp [List.filter_eq_nil_iff, alertOf, h]
  have haffected : ∀ (key : DIMMRecord F → String) (own : String),
      ((clusters key dimms).map (alertOf key own dimms)).map ClusterAlert.affectedCount =
        (clusters key dimms).map fun k => (members key dimms k).length := by
    intro key own
    rw [List.map_map]
    rfl
  rw [halerts, List.filter_append, hkept, hkept]
  rcases List.mem_pair.mp htype with rfl | rfl
  · rw [if_pos rfl, if_neg (by decide), List.append_nil, haffected]
    exact three_mul_clusters_le hp hpos
  · rw [if_neg (by decide), if_pos rfl, List.nil_append, haffected]
    exact three_mul_clusters_le hp hpos

end Alerts

/-- Nine sound DIMMs and a failing one of another vendor. -/
def tenDimms : List (DIMMRecord ℚ) :=
  ⟨"s0", "V", "p", "2401", "n0", "0", 9, 0, 1⟩ ::
    List.replicate 9 ⟨"s1", "W", "p", "2402", "n1", "0", 0, 0, 0⟩

theorem alerts_spec_ten :
    3 * (((analyzeClusters tenDimms).filter (·.clusterType = "vendor")).map
      ClusterAlert.affectedCount).sum ≤ 10 ∧
    (analyzeClusters tenDimms).map ClusterAlert.clusterKey = ["V|p", "2401"] :=
  ⟨(alerts_spec (show ∀ d ∈ tenDimms, 0 ≤ d.failureProbability by decide +kernel)
      (by decide +kernel)).2 "vendor" (by simp),
    by decide +kernel⟩

end FaultOracle.Clusters
