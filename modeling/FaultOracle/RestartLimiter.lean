import Mathlib.Algebra.Order.Group.Int
import FaultOracle.GuardedRuns
import FaultOracle.TimedLogs

/-!
# The restart limiter of the self-healing operator

`operator/main.go` deletes the pod of a collector which is down, at most
`maxPerHour` times an hour for each (node, collector) pair and never within
`cooldownDuration` of another deletion.  Both limits live in `restartRecord`:
per key the times of the recent grants, pruned and rebuilt by each grant, and one
global time shared by all keys.

A call reads the clock up to four times, and the readings are kept apart here:
the cutoff of the window, the recorded time of the grant and the global time are
three different moments.
-/

namespace FaultOracle.Operator

open TimedLogs

/-- One second as a `time.Duration`, which counts nanoseconds; a `time.Time` is
the nanoseconds since the Unix epoch. -/
def second : Int := 1000000000

def hour : Int := 3600 * second

def cooldownDuration : Int := 30 * second

/-- The zero `time.Time`, the first of January of year 1. -/
def zeroTime : Int := -62135596800 * second

/-- `t.Sub(u)`, which saturates at the ends of an `int64`. -/
def timeSub (t u : Int) : Int :=
  max (-9223372036854775808) (min 9223372036854775807 (t - u))

/-- `restartKey`: the pair whose restarts are counted together. -/
structure RestartKey where
  node : String
  collector : String
deriving DecidableEq, Repr

/-- `restartRecord`, without its mutex: every call holds it from start to end. -/
structure RestartRecord where
  events : RestartKey → List Int
  lastGlobal : Int

def newRestartRecord : RestartRecord where
  events := fun _ => []
  lastGlobal := zeroTime

/-- The clock readings of one call, in the order in which `allowed` makes them. -/
structure Readings where
  since : Int
  cutoff : Int
  event : Int
  global : Int

def Readings.toList (clock : Readings) : List Int :=
  [clock.since, clock.cutoff, clock.event, clock.global]

/-- `restartRecord.allowed`: the answer and the record it leaves. -/
def allowed (r : RestartRecord) (clock : Readings) (key : RestartKey) (maxPerHour : Int) :
    Bool × RestartRecord :=
  if timeSub clock.since r.lastGlobal < cooldownDuration then (false, r)
  else
    let cutoff := clock.cutoff - hour
    let recent := (r.events key).filter (fun t => cutoff < t)
    if maxPerHour ≤ recent.length then (false, r)
    else
      (true, { events := Function.update r.events key (recent ++ [clock.event])
               lastGlobal := clock.global })

theorem timeSub_lt_cooldown (t u : Int) :
    timeSub t u < cooldownDuration ↔ t - u < cooldownDuration := by
  simp only [timeSub, cooldownDuration, second]
  omega

/-- **What a call can do.**  It denies and leaves the record alone, or it grants:
then the global cooldown is over and the window holds fewer than the limit. -/
theorem allowed_cases (r : RestartRecord) (clock : Readings) (key : RestartKey)
    (maxPerHour : Int) :
    allowed r clock key maxPerHour = (false, r) ∨
    (r.lastGlobal + cooldownDuration ≤ clock.since ∧
      ((r.events key).filter (fun t => clock.cutoff - hour < t)).length < maxPerHour ∧
      allowed r clock key maxPerHour =
        (true,
          { events := Function.update r.events key
              ((r.events key).filter (fun t => clock.cutoff - hour < t) ++ [clock.event])
            lastGlobal := clock.global })) := by
  by_cases hcool : timeSub clock.since r.lastGlobal < cooldownDuration
  · left
    simp [allowed, hcool]
  · by_cases hfull :
        maxPerHour ≤ ((r.events key).filter (fun t => clock.cutoff - hour < t)).length
    · left
      simp [allowed, hfull]
    · right
      rw [timeSub_lt_cooldown] at hcool
      refine ⟨by omega, by omega, ?_⟩
      simp [allowed, timeSub_lt_cooldown, hcool, hfull]

/-- A denied call leaves the record exactly as it was. -/
theorem denied_unchanged {r : RestartRecord} {clock : Readings} {key : RestartKey}
    {maxPerHour : Int} (hdenied : (allowed r clock key maxPerHour).1 = false) :
    (allowed r clock key maxPerHour).2 = r := by
  rcases allowed_cases r clock key maxPerHour with h | ⟨-, -, h⟩
  · rw [h]
  · rw [h] at hdenied
    cases hdenied

/-! ## Sequences of calls -/

/-- One call of `allowed`, with the readings it makes. -/
structure Call where
  key : RestartKey
  clock : Readings

/-- The record, and the grants given so far with their recorded times. -/
structure Run where
  record : RestartRecord
  granted : List (RestartKey × Int)

def newRun : Run where
  record := newRestartRecord
  granted := []

/-- The answer to a call. -/
def answer (maxPerHour : Int) (r : Run) (c : Call) : Bool :=
  (allowed r.record c.clock c.key maxPerHour).1

def step (maxPerHour : Int) (r : Run) (c : Call) : Run where
  record := (allowed r.record c.clock c.key maxPerHour).2
  granted :=
    if answer maxPerHour r c then r.granted ++ [(c.key, c.clock.event)] else r.granted

/-- The answers to a sequence of calls. -/
def answers (maxPerHour : Int) : Run → List Call → List Bool
  | _, [] => []
  | r, c :: calls => answer maxPerHour r c :: answers maxPerHour (step maxPerHour r c) calls

/-- The times at which a key was granted. -/
def grantsOf (key : RestartKey) (granted : List (RestartKey × Int)) : List Int :=
  (granted.filter (fun g => g.1 = key)).map Prod.snd

@[simp] theorem grantsOf_snoc_self (key : RestartKey) (granted : List (RestartKey × Int))
    (t : Int) : grantsOf key (granted ++ [(key, t)]) = grantsOf key granted ++ [t] := by
  simp [grantsOf, List.filter_append]

theorem grantsOf_snoc_ne {key other : RestartKey} (hne : other ≠ key)
    (granted : List (RestartKey × Int)) (t : Int) :
    grantsOf key (granted ++ [(other, t)]) = grantsOf key granted := by
  simp [grantsOf, List.filter_append, hne]

theorem step_denied {maxPerHour : Int} {r : Run} {c : Call}
    (hdenied : answer maxPerHour r c = false) : step maxPerHour r c = r := by
  have hrecord : (allowed r.record c.clock c.key maxPerHour).2 = r.record :=
    denied_unchanged hdenied
  simp [step, hdenied, hrecord]

/-! ## The invariant -/

/-- What holds of the record and the grants when the clock stands at `now`.  The
stored events of a key are its grants after some cutoff, which lies at least an
hour back; so a later call, whose cutoff is later, counts in them all the grants
of its window. -/
structure Limits (maxPerHour : Int) (now : Int) (r : Run) : Prop where
  granted_le : ∀ g ∈ r.granted, g.2 ≤ now
  spaced : Spaced (fun _ => ()) Prod.snd cooldownDuration r.granted
  covers : Covers (fun _ => ()) Prod.snd (fun _ => some r.record.lastGlobal) r.granted
  pruned : ∀ key, ∃ cutoff, cutoff + hour ≤ now ∧
    r.record.events key = (grantsOf key r.granted).filter (fun t => cutoff < t)
  admitted : ∀ key, Admitted hour maxPerHour.toNat (grantsOf key r.granted)

theorem limits_new (maxPerHour : Int) (now : Int) : Limits maxPerHour now newRun where
  granted_le := by simp [newRun]
  spaced := spaced_nil
  covers := covers_nil _
  pruned := fun key => ⟨now - hour, by omega, rfl⟩
  admitted := fun _ => Admitted.nil

theorem Limits.later {maxPerHour : Int} {now later : Int} {r : Run}
    (h : Limits maxPerHour now r) (hle : now ≤ later) : Limits maxPerHour later r where
  granted_le := fun g hg => le_trans (h.granted_le g hg) hle
  spaced := h.spaced
  covers := h.covers
  pruned := fun key => by
    obtain ⟨cutoff, hcut, heq⟩ := h.pruned key
    exact ⟨cutoff, le_trans hcut hle, heq⟩
  admitted := h.admitted

/-- The grants of a key which a call's window counts are all in the record. -/
theorem Limits.recent_eq {maxPerHour : Int} {now : Int} {r : Run}
    (h : Limits maxPerHour now r) (key : RestartKey) {t : Int} (ht : now ≤ t) :
    (r.record.events key).filter (fun s => t - hour < s) =
      (grantsOf key r.granted).filter (fun s => t - hour < s) := by
  obtain ⟨cutoff, hcut, heq⟩ := h.pruned key
  exact filter_of_pruned heq (by omega)

section Grant

variable {maxPerHour now : Int} {r : Run} {c : Call} (h : Limits maxPerHour now r)
  (hcutoff : now ≤ c.clock.cutoff) (hevent : c.clock.cutoff ≤ c.clock.event)
include h hcutoff hevent

/-- After a grant the stored events of each key are still its grants past some cutoff. -/
theorem Limits.pruned_grant (hglobal : c.clock.event ≤ c.clock.global) (key : RestartKey) :
    ∃ cutoff, cutoff + hour ≤ c.clock.global ∧
      Function.update r.record.events c.key
          ((r.record.events c.key).filter (fun t => c.clock.cutoff - hour < t) ++
            [c.clock.event]) key =
        (grantsOf key (r.granted ++ [(c.key, c.clock.event)])).filter (fun t => cutoff < t) := by
  by_cases hkey : c.key = key
  · subst hkey
    have hhour : (0 : Int) < hour := by decide
    have hkept : c.clock.cutoff - hour < c.clock.event := by omega
    refine ⟨c.clock.cutoff - hour, by omega, ?_⟩
    rw [Function.update_self, h.recent_eq c.key hcutoff, grantsOf_snoc_self]
    simp [List.filter_append, hkept]
  · obtain ⟨cutoff, hcut, heq⟩ := h.pruned key
    refine ⟨cutoff, by omega, ?_⟩
    rw [grantsOf_snoc_ne hkey, ← heq]
    exact Function.update_of_ne (Ne.symm hkey) _ _

/-- A grant which found room in its window keeps the grants of every key admitted. -/
theorem Limits.admitted_grant
    (hcount : (((r.record.events c.key).filter
      (fun t => c.clock.cutoff - hour < t)).length : Int) < maxPerHour) (key : RestartKey) :
    Admitted hour maxPerHour.toNat (grantsOf key (r.granted ++ [(c.key, c.clock.event)])) := by
  by_cases hkey : c.key = key
  · subst hkey
    rw [grantsOf_snoc_self]
    apply (h.admitted c.key).snoc
    -- the window of the grant itself begins later than the one that was counted
    have hsub : ((grantsOf c.key r.granted).filter
        (fun s => c.clock.event - hour < s)).length ≤
        ((grantsOf c.key r.granted).filter (fun s => c.clock.cutoff - hour < s)).length := by
      refine (List.monotone_filter_right _ ?_).length_le
      intro s hs
      simp only [decide_eq_true_eq] at hs ⊢
      omega
    rw [h.recent_eq c.key hcutoff] at hcount
    omega
  · rw [grantsOf_snoc_ne hkey]
    exact h.admitted key

end Grant

/-- **One call.**  The limits survive every call whose readings follow `now`. -/
theorem limits_step (maxPerHour now : Int) (r : Run) (c : Call)
    (h : Limits maxPerHour now r)
    (hclock : (now :: c.clock.toList).Pairwise (· ≤ ·)) :
    Limits maxPerHour (c.clock.toList.getLastD now) (step maxPerHour r c) := by
  simp only [Readings.toList, List.pairwise_cons, List.mem_cons, List.not_mem_nil,
    or_false, forall_eq_or_imp, forall_eq] at hclock
  have hlast : c.clock.toList.getLastD now = c.clock.global := rfl
  rw [hlast]
  have hcutoff : now ≤ c.clock.cutoff := by omega
  have hevent : c.clock.cutoff ≤ c.clock.event := by omega
  have hglobal : c.clock.event ≤ c.clock.global := by omega
  rcases allowed_cases r.record c.clock c.key maxPerHour with
    hdenied | ⟨hcool, hcount, hgrant⟩
  · rw [step_denied (by simp [answer, hdenied])]
    exact h.later (by omega)
  · have hstep : step maxPerHour r c =
        { record :=
            { events := Function.update r.record.events c.key
                ((r.record.events c.key).filter (fun t => c.clock.cutoff - hour < t) ++
                  [c.clock.event])
              lastGlobal := c.clock.global }
          granted := r.granted ++ [(c.key, c.clock.event)] } := by
      simp [step, answer, hgrant]
    have hold : ∀ g ∈ r.granted, g.2 ≤ c.clock.global := fun g hg =>
      le_trans (h.granted_le g hg) (by omega)
    rw [hstep]
    refine ⟨?_, ?_, ?_, h.pruned_grant hcutoff hevent hglobal,
      h.admitted_grant hcutoff hevent hcount⟩
    · intro g hg
      rcases List.mem_append.mp hg with hg | hg
      · exact hold g hg
      · obtain rfl := List.mem_singleton.mp hg
        exact hglobal
    · apply h.spaced.snoc h.covers
      rintro t ⟨⟩
      show r.record.lastGlobal + cooldownDuration ≤ c.clock.event
      omega
    · have hcovers := h.covers.snoc (e := (c.key, c.clock.event)) hold hglobal
      convert hcovers using 1
      funext u
      cases u
      rfl

/-- **Every run.**  On a nondecreasing clock the limits hold at the end of any
sequence of calls. -/
theorem limits_run (maxPerHour : Int) {calls : List Call}
    (hclock : (calls.flatMap (fun c => c.clock.toList)).Pairwise (· ≤ ·)) :
    ∃ now, Limits maxPerHour now (calls.foldl (step maxPerHour) newRun) := by
  obtain ⟨start, hstart⟩ := GuardedRuns.exists_start hclock
  exact ⟨_, GuardedRuns.clocked_invariant (limits_step maxPerHour)
    (limits_new maxPerHour start) hstart⟩

/-- The grants of a key at times picked by `W` are the picked times of the key. -/
theorem grants_filter_length (key : RestartKey) (W : Int → Prop) [DecidablePred W]
    (granted : List (RestartKey × Int)) :
    (granted.filter (fun g => g.1 = key ∧ W g.2)).length =
      ((grantsOf key granted).filter W).length := by
  simp [grantsOf, List.filter_map, List.filter_filter, Function.comp_def, and_comm]

/-- **The operator's limits.**  On a nondecreasing clock a key is granted at most
`maxPerHour` times in any window of one hour, open at either end; any two grants
are at least `cooldownDuration` apart; and the answers after a denied call are
those that would have been given without it. -/
theorem restart_limits (maxPerHour : Int) (calls : List Call)
    (hclock : (calls.flatMap (fun c => c.clock.toList)).Pairwise (· ≤ ·)) :
    (∀ key a,
      ((calls.foldl (step maxPerHour) newRun).granted.filter
        (fun g => g.1 = key ∧ a ≤ g.2 ∧ g.2 < a + hour)).length ≤ maxPerHour.toNat ∧
      ((calls.foldl (step maxPerHour) newRun).granted.filter
        (fun g => g.1 = key ∧ a < g.2 ∧ g.2 ≤ a + hour)).length ≤ maxPerHour.toNat) ∧
    (calls.foldl (step maxPerHour) newRun).granted.Pairwise
      (fun g h => g.2 + cooldownDuration ≤ h.2) ∧
    (∀ before c after, calls = before ++ c :: after →
      answer maxPerHour (before.foldl (step maxPerHour) newRun) c = false →
      answers maxPerHour ((before ++ [c]).foldl (step maxPerHour) newRun) after =
        answers maxPerHour (before.foldl (step maxPerHour) newRun) after) := by
  obtain ⟨now, h⟩ := limits_run maxPerHour hclock
  refine ⟨?_, ?_, ?_⟩
  · intro key a
    rw [grants_filter_length key (fun t => a ≤ t ∧ t < a + hour),
      grants_filter_length key (fun t => a < t ∧ t ≤ a + hour)]
    constructor
    · exact (h.admitted key).window_le _ (fun s t hs ht => by omega)
    · exact (h.admitted key).window_le _ (fun s t hs ht => by omega)
  · exact h.spaced.imp fun hgap => hgap rfl
  · intro before c after _ hdenied
    rw [List.foldl_append, List.foldl_cons, List.foldl_nil, step_denied hdenied]

/-- A call whose readings are one nanosecond apart. -/
def callAt (key : RestartKey) (t : Int) : Call where
  key := key
  clock := { since := t, cutoff := t + 1, event := t + 2, global := t + 3 }

/-- Three calls for one key: the second comes within the cooldown of the first. -/
def threeCalls : List Call :=
  [0, 10, 40].map (fun t => callAt { node := "node-1", collector := "edac" } (t * second))

theorem restart_limits_three_calls :
    answers 3 newRun threeCalls = [true, false, true] ∧
      (threeCalls.foldl (step 3) newRun).granted.Pairwise
        (fun g h => g.2 + cooldownDuration ≤ h.2) :=
  ⟨by decide +kernel, (restart_limits 3 threeCalls (by decide +kernel)).2.1⟩

end FaultOracle.Operator
