import Mathlib.Data.List.Perm.Basic
import Mathlib.Data.List.Sort

/-!
# Pairs of a list

The pairs of an element of a list and a later one (`pairs`), and what a program does with them:

* a stable sort turns the pairs around which are not in order, and no others
  (`pairs_insertionSort`);
* pairs which are looked for in one class after the other are those whose elements are of one
  class (`pairs_classes`);
* what is made of the two elements alike does not depend on the order of the list
  (`perm_flatMap_pairs`);
* a search that breaks off at the first element beyond a limit finds all that is within it,
  when the elements are in order (`takeWhile_eq_filter`).
-/

namespace ListPairs

variable {α β κ : Type*} {l other : List α}

/-- The pairs of an element and a later one. -/
def pairs : List α → List (α × α)
  | [] => []
  | x :: xs => xs.map (Prod.mk x) ++ pairs xs

theorem mem_pairs_cons {x : α} {xs : List α} {p : α × α} :
    p ∈ pairs (x :: xs) ↔ (p.1 = x ∧ p.2 ∈ xs) ∨ p ∈ pairs xs := by
  obtain ⟨a, b⟩ := p
  simp [pairs, eq_comm]
  tauto

/-- What holds of all pairs. -/
theorem forall_mem_pairs {R : α → α → Prop} :
    (∀ p ∈ pairs l, R p.1 p.2) ↔ l.Pairwise R := by
  induction l with
  | nil => simp [pairs]
  | cons x xs ih =>
      rw [List.pairwise_cons, ← ih, pairs, List.forall_mem_append, List.forall_mem_map]

theorem mem_of_mem_pairs {p : α × α} (h : p ∈ pairs l) : p.1 ∈ l ∧ p.2 ∈ l := by
  induction l with
  | nil => cases h
  | cons x xs ih =>
      rcases mem_pairs_cons.mp h with ⟨hx, hmem⟩ | hmem
      · exact ⟨hx ▸ List.mem_cons_self, List.mem_cons_of_mem _ hmem⟩
      · exact ⟨List.mem_cons_of_mem _ (ih hmem).1, List.mem_cons_of_mem _ (ih hmem).2⟩

theorem mem_pairs_or {x y : α} (hx : x ∈ l) (hy : y ∈ l) (hne : x ≠ y) :
    (x, y) ∈ pairs l ∨ (y, x) ∈ pairs l := by
  induction l with
  | nil => cases hx
  | cons z zs ih =>
      rw [mem_pairs_cons, mem_pairs_cons]
      rcases List.mem_cons.mp hx with rfl | hx
      · exact .inl (.inl ⟨rfl, (List.mem_cons.mp hy).resolve_left (Ne.symm hne)⟩)
      · rcases List.mem_cons.mp hy with hyz | hy
        · exact .inr (.inl ⟨hyz, hx⟩)
        · exact (ih hx hy).imp .inr .inr

/-! ## Sorting -/

section Sorting

variable (r : α → α → Prop) [DecidableRel r] [IsTrans α r]

/-- A pair in the order of a sorted list. -/
def inOrder (p : α × α) : α × α := if r p.1 p.2 then p else p.swap

theorem pairs_orderedInsert (x : α) {xs : List α} (h : xs.Pairwise r) :
    (pairs (xs.orderedInsert r x)).Perm ((xs.map fun y => inOrder r (x, y)) ++ pairs xs) := by
  induction xs with
  | nil => exact List.Perm.refl _
  | cons y ys ih =>
      obtain ⟨hy, hys⟩ := List.pairwise_cons.mp h
      by_cases hxy : r x y
      · have hall : ∀ z ∈ y :: ys, inOrder r (x, z) = (x, z) := by
          intro z hz
          have hxz : r x z := by
            rcases List.mem_cons.mp hz with rfl | hz
            · exact hxy
            · exact IsTrans.trans _ _ _ hxy (hy z hz)
          exact if_pos hxz
        rw [List.orderedInsert_cons_of_le r ys hxy, List.map_congr_left hall]
        exact List.Perm.refl _
      · have hlater : ((ys.orderedInsert r x).map (Prod.mk y)).Perm
            (inOrder r (x, y) :: ys.map (Prod.mk y)) := by
          rw [inOrder, if_neg hxy]
          exact (List.perm_orderedInsert r x ys).map (Prod.mk y)
        rw [List.orderedInsert_of_not_le r ys hxy, pairs, pairs, List.map_cons]
        refine (hlater.append (ih hys)).trans ?_
        rw [List.cons_append, List.cons_append]
        refine List.Perm.cons _ ?_
        rw [← List.append_assoc, ← List.append_assoc]
        exact List.perm_append_comm.append_right _

/-- **Sorting** turns around the pairs which are not in order. -/
theorem pairs_insertionSort [Std.Total r] (l : List α) :
    (pairs (l.insertionSort r)).Perm ((pairs l).map (inOrder r)) := by
  induction l with
  | nil => exact List.Perm.refl _
  | cons x xs ih =>
      rw [List.insertionSort_cons, pairs, List.map_append, List.map_map]
      refine (pairs_orderedInsert r x (List.pairwise_insertionSort r xs)).trans ?_
      exact ((List.perm_insertionSort r xs).map fun y => inOrder r (x, y)).append ih

end Sorting

/-! ## Classes -/

section Classes

variable [BEq κ] [LawfulBEq κ] {keys : List κ}

/-- Of distinct keys, one is that of an element. -/
theorem flatMap_eq_of_mem {k : κ} {found : List β} (hnodup : keys.Nodup) (hk : k ∈ keys) :
    (keys.flatMap fun j => if k == j then found else []) = found := by
  induction keys with
  | nil => cases hk
  | cons j keys ih =>
      obtain ⟨hj, hrest⟩ := List.nodup_cons.mp hnodup
      rw [List.flatMap_cons]
      by_cases h : k = j
      · subst h
        have hnone : ∀ i ∈ keys, (if k == i then found else []) = [] := by
          intro i hi
          have hne : k ≠ i := fun heq => hj (heq ▸ hi)
          rw [beq_eq_false_iff_ne.mpr hne]
          rfl
        rw [beq_self_eq_true, if_pos rfl, List.flatMap_eq_nil_iff.mpr hnone, List.append_nil]
      · have hin : k ∈ keys := (List.mem_cons.mp hk).resolve_left h
        rw [beq_eq_false_iff_ne.mpr h, ih hrest hin]
        rfl

/-- **Classes.** -/
theorem pairs_classes {key : α → κ} (hnodup : keys.Nodup) (hkeys : ∀ x ∈ l, key x ∈ keys) :
    (keys.flatMap fun k => pairs (l.filter fun x => key x == k)).Perm
      ((pairs l).filter fun p => key p.1 == key p.2) := by
  induction l with
  | nil => simp [pairs]
  | cons x xs ih =>
      obtain ⟨hx, hxs⟩ := List.forall_mem_cons.mp hkeys
      have hclass : ∀ k, pairs ((x :: xs).filter fun y => key y == k) =
          (if key x == k then (xs.filter fun y => key y == key x).map (Prod.mk x) else []) ++
            pairs (xs.filter fun y => key y == k) := by
        intro k
        cases hk : key x == k with
        | true => simp [pairs, LawfulBEq.eq_of_beq hk]
        | false => simp [hk]
      have hown : (xs.map (Prod.mk x)).filter (fun p => key p.1 == key p.2) =
          (xs.filter fun y => key y == key x).map (Prod.mk x) := by
        rw [List.filter_map]
        congr 1
        refine List.filter_congr fun y _ => ?_
        exact Bool.beq_comm
      simp only [hclass]
      rw [pairs, List.filter_append, hown]
      refine (List.flatMap_append_perm keys _ _).symm.trans ?_
      rw [flatMap_eq_of_mem hnodup hx]
      exact (ih hxs).append_left _

end Classes

/-! ## Order -/

/-- **What is made of two elements alike** is made of all pairs, in whatever order the list is. -/
theorem perm_flatMap_pairs {f : α × α → List β} (h : l.Perm other)
    (hf : ∀ x ∈ l, ∀ y ∈ l, (f (x, y)).Perm (f (y, x))) :
    ((pairs l).flatMap f).Perm ((pairs other).flatMap f) := by
  induction h with
  | nil => exact List.Perm.refl _
  | @cons x xs ys hperm ih =>
      have hrest := ih fun y hy z hz => hf y (.tail _ hy) z (.tail _ hz)
      rw [pairs, pairs, List.flatMap_append, List.flatMap_append]
      exact ((hperm.map _).flatMap_right f).append hrest
  | swap x y xs =>
      have hxy := hf y (.head _) x (.tail _ (.head _))
      simp only [pairs, List.map_cons, List.flatMap_append, List.flatMap_cons, List.append_assoc]
      refine hxy.append ?_
      rw [← List.append_assoc, ← List.append_assoc]
      exact List.perm_append_comm.append_right _
  | trans hfirst _ ih ih' =>
      refine (ih hf).trans (ih' fun x hx y hy => ?_)
      exact hf x (hfirst.mem_iff.mpr hx) y (hfirst.mem_iff.mpr hy)

/-- A property of two elements, whichever comes first, is counted alike in every order. -/
theorem countP_pairs_of_perm {P : α × α → Bool} (h : l.Perm other)
    (hP : ∀ x y, P (x, y) = P (y, x)) : (pairs l).countP P = (pairs other).countP P := by
  have hunits : ∀ ps : List (α × α),
      (ps.flatMap fun p => if P p then [()] else []).length = ps.countP P := by
    intro ps
    induction ps with
    | nil => rfl
    | cons p ps ih =>
        rw [List.flatMap_cons, List.length_append, ih, List.countP_cons]
        cases P p <;> simp [Nat.add_comm]
  rw [← hunits, ← hunits]
  refine (perm_flatMap_pairs h fun x _ y _ => ?_).length_eq
  rw [hP x y]

/-! ## Breaking off -/

/-- **Breaking off** loses nothing when no element behind the first one beyond the limit is
within it. -/
theorem takeWhile_eq_filter {p : α → Bool} (h : l.Pairwise fun x y => p y = true → p x = true) :
    l.takeWhile p = l.filter p := by
  induction l with
  | nil => rfl
  | cons x xs ih =>
      obtain ⟨hx, hxs⟩ := List.pairwise_cons.mp h
      cases hp : p x with
      | true => rw [List.takeWhile_cons_of_pos hp, List.filter_cons_of_pos hp, ih hxs]
      | false =>
          have hnone : xs.filter p = [] := by
            refine List.filter_eq_nil_iff.mpr fun y hy hpy => ?_
            have hpx := hx y hy hpy
            rw [hp] at hpx
            cases hpx
          rw [List.takeWhile_cons_of_neg (by simp [hp]), List.filter_cons_of_neg (by simp [hp]),
            hnone]

/-- One element more is counted. -/
theorem countP_lt {α : Type*} {l : List α} {P Q : α → Bool} (hle : ∀ a ∈ l, P a = true → Q a = true)
    {a : α} (ha : a ∈ l) (hQ : Q a = true) (hP : P a = false) : l.countP P < l.countP Q := by
  obtain ⟨front, rest, rfl⟩ := List.append_of_mem ha
  have hfront : front.countP P ≤ front.countP Q := List.countP_mono_left fun b hb =>
    hle b (List.mem_append_left _ hb)
  have hrest : rest.countP P ≤ rest.countP Q := List.countP_mono_left fun b hb =>
    hle b (List.mem_append_right _ (.tail _ hb))
  rw [List.countP_append, List.countP_append, List.countP_cons_of_pos hQ,
    List.countP_cons_of_neg (by simp [hP])]
  omega

end ListPairs
