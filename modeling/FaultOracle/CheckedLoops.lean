import Mathlib.Order.Basic

/-!
# Loops which may fail

A loop is given by what one turn of it does: it fails, or goes on with another state, or is
done with a result.  How many turns a run may take is its fuel.

`exists_returns` is the rule for total correctness.  An invariant under which no turn fails,
and a measure which every further turn lowers, make a loop return whatever its last turn
ensures; neither says anything about fuel.
-/

namespace CheckedLoops

universe u

/-- How a turn ends which does not fail. -/
inductive Turn (σ ρ : Type*)
  | again (s : σ)
  | done (r : ρ)

variable {ε σ ρ : Type*} {body : σ → Except ε (Turn σ ρ)} {s t : σ} {r r' : ρ}

/-- A run; nothing comes of it if it is not done when the fuel is. -/
def runLoop (body : σ → Except ε (Turn σ ρ)) : Nat → σ → Option (Except ε ρ)
  | 0, _ => none
  | fuel + 1, s =>
      match body s with
      | .error e => some (.error e)
      | .ok (.done r) => some (.ok r)
      | .ok (.again t) => runLoop body fuel t

/-- The loop is done with the result `r`, given enough fuel. -/
def Returns (body : σ → Except ε (Turn σ ρ)) (s : σ) (r : ρ) : Prop :=
  ∃ turns, ∀ fuel, turns < fuel → runLoop body fuel s = some (.ok r)

theorem returns_of_done (h : body s = .ok (.done r)) : Returns body s r := by
  refine ⟨0, fun fuel hfuel => ?_⟩
  obtain ⟨fuel, rfl⟩ := Nat.exists_eq_succ_of_ne_zero (Nat.pos_iff_ne_zero.mp hfuel)
  rw [runLoop, h]

theorem returns_of_again (h : body s = .ok (.again t)) (ht : Returns body t r) :
    Returns body s r := by
  obtain ⟨turns, hturns⟩ := ht
  refine ⟨turns + 1, fun fuel hfuel => ?_⟩
  obtain ⟨fuel, rfl⟩ : ∃ more, fuel = more + 1 := ⟨fuel - 1, by omega⟩
  rw [runLoop, h]
  exact hturns fuel (by omega)

/-- What a loop returns does not depend on the fuel. -/
theorem Returns.unique (h : Returns body s r) (h' : Returns body s r') : r = r' := by
  obtain ⟨turns, hturns⟩ := h
  obtain ⟨turns', hturns'⟩ := h'
  have hr := hturns (max turns turns' + 1) (by omega)
  have hr' := hturns' (max turns turns' + 1) (by omega)
  rw [hr] at hr'
  exact Except.ok.inj (Option.some.inj hr')

/-- **Total correctness** of a loop, by an invariant and a measure. -/
theorem exists_returns {Inv : σ → Prop} {Post : ρ → Prop} (measure : σ → Nat)
    (hbody : ∀ s, Inv s → (∃ r, body s = .ok (.done r) ∧ Post r) ∨
      ∃ t, body s = .ok (.again t) ∧ Inv t ∧ measure t < measure s)
    (hs : Inv s) : ∃ r, Returns body s r ∧ Post r := by
  induction hn : measure s using Nat.strongRecOn generalizing s with
  | ind n ih =>
      rcases hbody s hs with ⟨r, hdone, hpost⟩ | ⟨t, hagain, ht, hlt⟩
      · exact ⟨r, returns_of_done hdone, hpost⟩
      · obtain ⟨r, hr, hpost⟩ := ih (measure t) (hn ▸ hlt) ht rfl
        exact ⟨r, returns_of_again hagain hr, hpost⟩

/-! ## One step after another -/

/-- Two steps succeed when the first does, and the second with what it gave. -/
theorem bind_eq_ok {α β : Type u} {x : Except ε α} {f : α → Except ε β} {b : β} :
    (x >>= f) = .ok b ↔ ∃ a, x = .ok a ∧ f a = .ok b := by
  cases x with
  | error e => simp [bind, Except.bind]
  | ok a => simp [bind, Except.bind]

/-! ## Loops over a list -/

/-- A loop whose turns fail because of the element, whatever the state, fails at the first such
element. -/
theorem foldlM_eq_ok_iff {α : Type*} {body : σ → α → Except ε σ} {Bad : α → Prop}
    {next : σ → α → σ} (hok : ∀ s a, ¬ Bad a → body s a = .ok (next s a))
    (hbad : ∀ s a, Bad a → ∃ e, body s a = .error e) {xs : List α} :
    xs.foldlM body s = .ok t ↔ (∀ a ∈ xs, ¬ Bad a) ∧ xs.foldl next s = t := by
  induction xs generalizing s with
  | nil =>
      have hpure : ([] : List α).foldlM body s = .ok s := rfl
      rw [hpure, List.foldl_nil, Except.ok.injEq]
      exact ⟨fun h => ⟨fun a ha => absurd ha List.not_mem_nil, h⟩, fun h => h.2⟩
  | cons a xs ih =>
      rw [List.foldlM_cons, List.forall_mem_cons, List.foldl_cons]
      by_cases ha : Bad a
      · obtain ⟨e, he⟩ := hbad s a ha
        rw [he]
        exact ⟨fun h => (nomatch h), fun h => absurd ha h.1.1⟩
      · have hstep : (body s a >>= fun s => xs.foldlM body s) = xs.foldlM body (next s a) := by
          rw [hok s a ha]
          rfl
        rw [hstep, ih]
        exact ⟨fun h => ⟨⟨ha, h.1⟩, h.2⟩, fun h => ⟨h.1.2, h.2⟩⟩

end CheckedLoops
