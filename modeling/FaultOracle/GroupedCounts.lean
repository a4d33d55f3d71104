import Mathlib.Algebra.GroupWithZero.Nat
import Mathlib.Data.List.Perm.Basic
import Mathlib.Tactic.ByContra

/-!
# Grouped counts

What a query that groups rows and counts each group may answer: rows which are the same for it
fall into one group, a group is answered by any of its rows with the number of them, and the
groups come in any order.

An answer counts every row once (`Answers.sum`), and whichever rows of different groups one
picks, there is an answer that begins with them (`exists_answers_pair`).
-/

namespace GroupedCounts

variable {ρ : Type*}

/-- The answers of a query that tells rows apart by `same`. -/
inductive Answers (same : Setoid ρ) : List ρ → List (ρ × Nat) → Prop
  | nil : Answers same [] []
  | group {r : ρ} {rows group rest : List ρ} {answer : List (ρ × Nat)} (hr : r ∈ group)
      (hgroup : ∀ x ∈ group, same.r r x) (hrest : ∀ x ∈ rest, ¬ same.r r x)
      (hrows : rows.Perm (group ++ rest)) (h : Answers same rest answer) :
      Answers same rows ((r, group.length) :: answer)

section

variable {same : Setoid ρ} {rows : List ρ} {answer : List (ρ × Nat)} {r r' : ρ}

/-- **Every row is counted once.** -/
theorem Answers.sum (h : Answers same rows answer) : (answer.map Prod.snd).sum = rows.length := by
  induction h with
  | nil => rfl
  | group _ _ _ hrows _ ih =>
      rw [List.map_cons, List.sum_cons, ih, hrows.length_eq, List.length_append]

/-- An answer has rows, and a group is not empty. -/
theorem Answers.mem (h : Answers same rows answer) : ∀ a ∈ answer, a.1 ∈ rows ∧ 0 < a.2 := by
  induction h with
  | nil => simp
  | group hr _ _ hrows _ ih =>
      intro a ha
      rcases List.mem_cons.mp ha with rfl | ha
      · exact ⟨hrows.mem_iff.mpr (List.mem_append_left _ hr), List.length_pos_of_mem hr⟩
      · obtain ⟨hmem, hpos⟩ := ih a ha
        exact ⟨hrows.mem_iff.mpr (List.mem_append_right _ hmem), hpos⟩

/-- No two entries are of one group. -/
theorem Answers.pairwise (h : Answers same rows answer) :
    answer.Pairwise fun a b => ¬ same.r a.1 b.1 := by
  induction h with
  | nil => exact .nil
  | group _ _ hrest _ h ih =>
      refine List.pairwise_cons.mpr ⟨fun a ha => ?_, ih⟩
      exact hrest _ (h.mem a ha).1

open Classical in
/-- An answer of the rows outside the group of `r` gives one that begins with `r`. -/
theorem Answers.cons (hr : r ∈ rows)
    (h : Answers same (rows.filter fun x => ¬ same.r r x) answer) :
    Answers same rows ((r, (rows.filter fun x => same.r r x).length) :: answer) := by
  refine .group (List.mem_filter.mpr ⟨hr, decide_eq_true (same.refl r)⟩) ?_ ?_ ?_ h
  · intro x hx
    exact of_decide_eq_true (List.mem_filter.mp hx).2
  · intro x hx
    exact of_decide_eq_true (List.mem_filter.mp hx).2
  · refine (List.filter_append_perm (fun x => decide (same.r r x)) rows).symm.trans ?_
    simp only [decide_not]
    exact List.Perm.refl _

/-- There is an answer. -/
theorem exists_answers (same : Setoid ρ) (rows : List ρ) : ∃ answer, Answers same rows answer := by
  classical
  induction hn : rows.length using Nat.strongRecOn generalizing rows with
  | ind n ih =>
      cases rows with
      | nil => exact ⟨[], .nil⟩
      | cons r rows =>
          have hshorter : ((r :: rows).filter fun x => ¬ same.r r x).length < n := by
            rw [← hn, List.length_filter_lt_length_iff_exists]
            exact ⟨r, List.mem_cons_self, fun hother => of_decide_eq_true hother (same.refl r)⟩
          obtain ⟨answer, h⟩ := ih _ hshorter _ rfl
          exact ⟨_, h.cons List.mem_cons_self⟩

/-- There is one that begins with any row. -/
theorem exists_answers_cons (hr : r ∈ rows) :
    ∃ n answer, Answers same rows ((r, n) :: answer) := by
  classical
  obtain ⟨answer, h⟩ := exists_answers same (rows.filter fun x => ¬ same.r r x)
  exact ⟨_, answer, h.cons hr⟩

/-- **There is one that begins with any two rows** of different groups. -/
theorem exists_answers_pair (hr : r ∈ rows) (hr' : r' ∈ rows) (hne : ¬ same.r r r') :
    ∃ n n' answer, Answers same rows ((r, n) :: (r', n') :: answer) := by
  classical
  have hrest : r' ∈ rows.filter fun x => ¬ same.r r x :=
    List.mem_filter.mpr ⟨hr', decide_eq_true hne⟩
  obtain ⟨n', answer, h⟩ := exists_answers_cons hrest
  exact ⟨_, n', answer, h.cons hr⟩

end

end GroupedCounts
