import Mathlib.Data.List.Basic
import Mathlib.Order.Lattice

/-!
# Logs that forget

A program which is asked for the recent part of a log may drop what is older than a cutoff
whenever it looks.  As long as the cutoff does not fall, nothing is dropped which a later look
could want: from then on, what is kept answers every cutoff as the whole log would (`Keeps`).

`Keeps` is kept by an event that is added and by a look; what a look finds is told by
`Keeps.since_eq`.
-/

namespace ExpiringLogs

variable {ε τ : Type*} [LinearOrder τ] {time : ε → τ} {cutoff later : τ} {log kept : List ε}

/-- The events of a log which are not before the cutoff. -/
def since (time : ε → τ) (cutoff : τ) (log : List ε) : List ε :=
  log.filter fun e => decide (cutoff ≤ time e)

/-- An earlier cutoff makes no difference to a later one. -/
theorem since_since (h : cutoff ≤ later) :
    since time later (since time cutoff log) = since time later log := by
  unfold since
  rw [List.filter_filter]
  refine List.filter_congr fun e _ => ?_
  by_cases hlater : later ≤ time e
  · simp [hlater, h.trans hlater]
  · simp [hlater]

theorem since_append (new : List ε) :
    since time cutoff (log ++ new) = since time cutoff log ++ since time cutoff new :=
  List.filter_append _ _

/-- What is kept of a log answers every cutoff from a given one on. -/
def Keeps (time : ε → τ) (cutoff : τ) (log kept : List ε) : Prop :=
  ∀ later, cutoff ≤ later → since time later kept = since time later log

theorem keeps_self (log : List ε) : Keeps time cutoff log log := fun _ _ => rfl

theorem Keeps.since_eq (h : Keeps time cutoff log kept) (hle : cutoff ≤ later) :
    since time later kept = since time later log := h later hle

/-- **Adding.** -/
theorem Keeps.append (h : Keeps time cutoff log kept) (new : List ε) :
    Keeps time cutoff (log ++ new) (kept ++ new) := by
  intro later hle
  rw [since_append, since_append, h later hle]

/-- **Looking**, from a later cutoff on. -/
theorem Keeps.expire (h : Keeps time cutoff log kept) (hle : cutoff ≤ later) :
    Keeps time later log (since time later kept) := by
  intro next hnext
  rw [since_since hnext]
  exact h next (hle.trans hnext)

end ExpiringLogs
