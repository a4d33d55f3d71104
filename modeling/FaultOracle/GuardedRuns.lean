import Mathlib.Data.List.Basic
import Mathlib.Order.Basic

/-!
# Runs of a step function

A run is the list of the actions taken, and a state machine is its step function
`step : σ → α → σ`: whatever the environment chooses (an answer of a server, a
reading of a clock) is part of the action.  Two predicates speak about the whole
of a run:

* `Throughout step P s run`: `P` holds of `s` and of every state reached;
* `Meets step C s run`: every action satisfies the condition `C` in the state
  in which it is taken.

`moments run` are the actions of a run with what comes before and after each.

`throughout_of_meets` is the rule for an invariant which only the actions
meeting `C` preserve, and `throughout_iff_meets` its exact form: when an action
breaks `P` precisely if it does not meet `C`, the runs on which `P` holds
throughout are precisely those whose actions all meet `C`.
-/

namespace GuardedRuns

variable {σ α : Type*} (step : σ → α → σ)

/-- `P` holds in `s` and in every state of the run that starts there. -/
def Throughout (P : σ → Prop) : σ → List α → Prop
  | s, [] => P s
  | s, a :: run => P s ∧ Throughout P (step s a) run

/-- Every action of the run meets the condition `C` in the state it is taken in. -/
def Meets (C : σ → α → Prop) : σ → List α → Prop
  | _, [] => True
  | s, a :: run => C s a ∧ Meets C (step s a) run

instance decidableMeets (C : σ → α → Prop) [∀ s a, Decidable (C s a)] :
    ∀ (s : σ) (run : List α), Decidable (Meets step C s run)
  | _, [] => isTrue trivial
  | s, a :: run =>
      have := decidableMeets C (step s a) run
      inferInstanceAs (Decidable (C s a ∧ Meets step C (step s a) run))

variable {step} {P Q : σ → Prop} {C : σ → α → Prop}

theorem Throughout.head {s : σ} {run : List α} (h : Throughout step P s run) : P s := by
  cases run with
  | nil => exact h
  | cons a run => exact h.1

theorem Throughout.mono (hPQ : ∀ s, P s → Q s) {s : σ} {run : List α}
    (h : Throughout step P s run) : Throughout step Q s run := by
  induction run generalizing s with
  | nil => exact hPQ s h
  | cons a run ih => exact ⟨hPQ s h.1, ih h.2⟩

theorem Throughout.at_end {s : σ} {run : List α} (h : Throughout step P s run) :
    P (run.foldl step s) := by
  induction run generalizing s with
  | nil => exact h
  | cons a run ih => exact ih h.2

/-- What no action can restore holds throughout a run once it holds at the end. -/
theorem throughout_iff_at_end (hback : ∀ s a, P (step s a) → P s) (s : σ) (run : List α) :
    Throughout step P s run ↔ P (run.foldl step s) := by
  refine ⟨fun h => h.at_end, ?_⟩
  induction run generalizing s with
  | nil => exact fun h => h
  | cons a run ih =>
      intro h
      have hrest : Throughout step P (step s a) run := ih (step s a) h
      exact ⟨hback s a hrest.head, hrest⟩

/-- **Invariant rule.**  A property which every action preserves holds at the end
of every run. -/
theorem foldl_invariant (hstep : ∀ s a, P s → P (step s a)) {s : σ} (hs : P s)
    (run : List α) : P (run.foldl step s) := by
  induction run generalizing s with
  | nil => exact hs
  | cons a run ih => exact ih (hstep s a hs)

/-- **Guarded invariant rule.**  If the actions meeting `C` preserve `P`, then `P`
holds throughout every run all of whose actions meet `C`. -/
theorem throughout_of_meets (hstep : ∀ s a, P s → C s a → P (step s a)) {s : σ}
    (hs : P s) {run : List α} (hrun : Meets step C s run) :
    Throughout step P s run := by
  induction run generalizing s with
  | nil => exact hs
  | cons a run ih => exact ⟨hs, ih (hstep s a hs hrun.1) hrun.2⟩

/-- **Exact guarded rule.**  Let `Inv` be an invariant of every action taken where
`P` still holds and after which it holds again.  If under `Inv` and `P` an action
keeps `P` exactly when it meets `C`, then `P` holds throughout a run exactly when
all its actions meet `C`. -/
theorem throughout_iff_meets (Inv : σ → Prop)
    (hinv : ∀ s a, Inv s → P s → P (step s a) → Inv (step s a))
    (hexact : ∀ s a, Inv s → P s → (P (step s a) ↔ C s a))
    {s : σ} (hs : Inv s) (hP : P s) (run : List α) :
    Throughout step P s run ↔ Meets step C s run := by
  induction run generalizing s with
  | nil => exact ⟨fun _ => trivial, fun _ => hP⟩
  | cons a run ih =>
      constructor
      · rintro ⟨-, hrest⟩
        have hnext : P (step s a) := hrest.head
        exact ⟨(hexact s a hs hP).mp hnext, (ih (hinv s a hs hP hnext) hnext).mp hrest⟩
      · rintro ⟨hC, hrest⟩
        have hnext : P (step s a) := (hexact s a hs hP).mpr hC
        exact ⟨hP, (ih (hinv s a hs hP hnext) hnext).mpr hrest⟩

/-! ## Moments -/

/-- The actions of a run, each between the run before it and the run after it. -/
def moments : List α → List (List α × α × List α)
  | [] => []
  | a :: run => ([], a, run) :: (moments run).map fun m => (a :: m.1, m.2)

theorem mem_moments {run : List α} {m : List α × α × List α} :
    m ∈ moments run ↔ run = m.1 ++ m.2.1 :: m.2.2 := by
  obtain ⟨before, a, rest⟩ := m
  induction run generalizing before with
  | nil => simp [moments]
  | cons b run ih =>
      cases before with
      | nil => simp [moments, eq_comm]
      | cons c before =>
          rw [moments, List.mem_cons, List.mem_map, List.cons_append, List.cons.injEq,
            ← ih before]
          constructor
          · intro h
            rcases h with h | ⟨⟨before', a', rest'⟩, hm, heq⟩
            · cases h
            · cases heq
              exact ⟨rfl, hm⟩
          · intro ⟨hb, hm⟩
            exact Or.inr ⟨_, hm, by rw [hb]⟩

/-- Of a longer run: those of the shorter, with more after them, and the last. -/
theorem mem_moments_concat {run : List α} {a : α} {m : List α × α × List α} :
    m ∈ moments (run ++ [a]) ↔
      (∃ n ∈ moments run, m = (n.1, n.2.1, n.2.2 ++ [a])) ∨ m = (run, a, []) := by
  obtain ⟨before, b, rest⟩ := m
  rw [mem_moments]
  rcases List.eq_nil_or_concat rest with rfl | ⟨rest, last, rfl⟩
  · constructor
    · intro h
      obtain ⟨rfl, hlast⟩ := List.append_inj' h rfl
      cases hlast
      exact Or.inr rfl
    · intro h
      rcases h with ⟨n, _, heq⟩ | heq
      · simp only [Prod.mk.injEq] at heq
        exact absurd heq.2.2.symm (by simp)
      · cases heq
        rfl
  · constructor
    · intro h
      have h : run ++ [a] = (before ++ b :: rest) ++ [last] := by simpa using h
      obtain ⟨rfl, hlast⟩ := List.append_inj' h rfl
      cases hlast
      exact Or.inl ⟨(before, b, rest), mem_moments.mpr rfl, by simp⟩
    · intro h
      rcases h with ⟨n, hn, heq⟩ | heq
      · rw [mem_moments.mp hn]
        simp only [Prod.mk.injEq, List.concat_eq_append] at heq ⊢
        rw [heq.1, heq.2.1, heq.2.2]
        simp
      · simp only [Prod.mk.injEq] at heq
        exact absurd heq.2.2 (by simp)

/-- Of the actions of a kind, one is the first. -/
theorem exists_first {p : α → Prop} {run : List α} (h : ∃ a ∈ run, p a) :
    ∃ m ∈ moments run, p m.2.1 ∧ ∀ b ∈ m.1, ¬ p b := by
  induction run with
  | nil => simp at h
  | cons b run ih =>
      by_cases hb : p b
      · exact ⟨([], b, run), mem_moments.mpr rfl, hb, fun _ hmem => absurd hmem List.not_mem_nil⟩
      · obtain ⟨a, ha, hpa⟩ := h
        have hrest : a ∈ run := (List.mem_cons.mp ha).resolve_left fun heq => hb (heq ▸ hpa)
        obtain ⟨m, hm, hpm, hbefore⟩ := ih ⟨a, hrest, hpa⟩
        refine ⟨(b :: m.1, m.2), ?_, hpm, List.forall_mem_cons.mpr ⟨hb, hbefore⟩⟩
        rw [mem_moments, mem_moments.mp hm, List.cons_append]

/-- There is one such moment. -/
theorem first_unique {p : α → Prop} {run : List α} {m n : List α × α × List α}
    (hm : m ∈ moments run) (hn : n ∈ moments run) (hpm : p m.2.1) (hpn : p n.2.1)
    (hbeforem : ∀ b ∈ m.1, ¬ p b) (hbeforen : ∀ b ∈ n.1, ¬ p b) : m = n := by
  obtain ⟨before, a, rest⟩ := m
  obtain ⟨before', a', rest'⟩ := n
  have heq : before ++ a :: rest = before' ++ a' :: rest' :=
    (mem_moments.mp hm).symm.trans (mem_moments.mp hn)
  rcases List.append_eq_append_iff.mp heq with ⟨more, hmore, htail⟩ | ⟨more, hmore, htail⟩
  · cases more with
    | nil => simp_all
    | cons c more =>
        obtain ⟨rfl, _⟩ := List.cons_eq_cons.mp htail
        exact absurd hpm (hbeforen a (by simp [hmore]))
  · cases more with
    | nil => simp_all
    | cons c more =>
        obtain ⟨rfl, _⟩ := List.cons_eq_cons.mp htail
        exact absurd hpn (hbeforem a' (by simp [hmore]))

/-! ## Runs under a clock

The actions of a timed run carry the readings of one clock, `reads a` being those
of the action `a` in the order they are made. -/

section Clocked

variable {τ : Type*} [Preorder τ] {reads : α → List τ}

/-- What follows some readings follows the last of them. -/
theorem pairwise_after_last {now : τ} {rs rest : List τ}
    (h : (now :: (rs ++ rest)).Pairwise (· ≤ ·)) :
    (rs.getLastD now :: rest).Pairwise (· ≤ ·) := by
  induction rs generalizing now with
  | nil => simpa using h
  | cons r rs ih =>
      have htail : (r :: (rs ++ rest)).Pairwise (· ≤ ·) := (List.pairwise_cons.mp h).2
      rw [List.getLastD_cons]
      exact ih htail

/-- Readings in order follow some earlier time. -/
theorem exists_start [Nonempty τ] {readings : List τ} (h : readings.Pairwise (· ≤ ·)) :
    ∃ now, (now :: readings).Pairwise (· ≤ ·) := by
  cases readings with
  | nil => exact ⟨Classical.arbitrary τ, List.pairwise_singleton _ _⟩
  | cons r rest =>
      refine ⟨r, List.pairwise_cons.mpr ⟨?_, h⟩⟩
      intro t ht
      rcases List.mem_cons.mp ht with rfl | ht
      · exact le_refl t
      · exact (List.pairwise_cons.mp h).1 t ht

omit [Preorder τ] in
private theorem getLastD_append (rs rest : List τ) (now : τ) :
    (rs ++ rest).getLastD now = rest.getLastD (rs.getLastD now) := by
  induction rs generalizing now with
  | nil => rfl
  | cons r rs ih =>
      rw [List.cons_append, List.getLastD_cons, List.getLastD_cons]
      exact ih r

/-- **Guarded clocked invariant rule.**  `Inv now s` may speak of the latest reading
`now`.  If every action meeting `C` whose readings follow `now` in order keeps the
invariant, at its own last reading, then it holds at the end of every run of such
actions on a nondecreasing clock. -/
theorem clocked_invariant_of {Inv : τ → σ → Prop} {C : α → Prop}
    (hstep : ∀ now s a, C a → Inv now s → (now :: reads a).Pairwise (· ≤ ·) →
      Inv ((reads a).getLastD now) (step s a))
    {now : τ} {s : σ} (hs : Inv now s) {run : List α} (hrun : ∀ a ∈ run, C a)
    (hclock : (now :: run.flatMap reads).Pairwise (· ≤ ·)) :
    Inv ((run.flatMap reads).getLastD now) (run.foldl step s) := by
  induction run generalizing now s with
  | nil => exact hs
  | cons a run ih =>
      rw [List.flatMap_cons] at hclock ⊢
      have hhere : (now :: reads a).Pairwise (· ≤ ·) :=
        hclock.sublist (by simp)
      have hnext : Inv ((reads a).getLastD now) (step s a) :=
        hstep now s a (hrun a List.mem_cons_self) hs hhere
      rw [getLastD_append]
      exact ih hnext (fun b hb => hrun b (List.mem_cons_of_mem _ hb)) (pairwise_after_last hclock)

/-- **Clocked invariant rule.**  The same where every action keeps the invariant. -/
theorem clocked_invariant {Inv : τ → σ → Prop}
    (hstep : ∀ now s a, Inv now s → (now :: reads a).Pairwise (· ≤ ·) →
      Inv ((reads a).getLastD now) (step s a))
    {now : τ} {s : σ} (hs : Inv now s) {run : List α}
    (hclock : (now :: run.flatMap reads).Pairwise (· ≤ ·)) :
    Inv ((run.flatMap reads).getLastD now) (run.foldl step s) :=
  clocked_invariant_of (C := fun _ => True) (fun now s a _ => hstep now s a) hs
    (fun _ _ => trivial) hclock

end Clocked

end GuardedRuns
