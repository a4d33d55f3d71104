import FaultOracle.GuardedRuns
import FaultOracle.TimedLogs
import FaultOracle.RemediationController
import Mathlib.Tactic.Linarith
import Mathlib.Tactic.FieldSimp

/-!
# The cooldown over whole runs of the controller

Between two polls nothing but the state file carries the time of the last action on
a node.  The dictionary of a poll is a register for the log of recorded
remediations in the sense of `TimedLogs`: the entry of a node holds a time which is
not before any remediation recorded for it.  A turn of the loop keeps this, the load
and the save carry it from poll to poll, and a restart cannot lose it.
-/

namespace FaultOracle.Remediation

open TimedLogs

/-- The time which `_cooldown_active` reads in a `last_action`. -/
def IsoText.time : IsoText → Option ℚ
  | .blank => none
  | .malformed => none
  | .naive t => some t
  | .aware t => some t

/-- The time of the last action on a node, as the state has it. -/
def lastActionTime (state : State) (node : String) : Option ℚ :=
  (state node).bind (fun entry => entry.lastAction.time)

/-- The cooldown in seconds. -/
def cooldownSeconds (cfg : Config) : ℚ := 3600 * cfg.cooldownHours

/-- When the cooldown is not active it has run out. -/
theorem cooldown_over {cfg : Config} {state : State} {node : String} {now last : ℚ}
    (hinactive : cooldownActive cfg state node now = false)
    (hlast : lastActionTime state node = some last) : last + cooldownSeconds cfg ≤ now := by
  obtain ⟨entry, hentry, htime⟩ := Option.bind_eq_some_iff.mp hlast
  have hhours : cfg.cooldownHours ≤ (now - last) / 3600 := by
    unfold cooldownActive at hinactive
    rw [hentry] at hinactive
    cases haction : entry.lastAction with
    | blank => simp [haction, IsoText.time] at htime
    | malformed => simp [haction, IsoText.time] at htime
    | naive t | aware t =>
        rw [haction] at htime
        obtain rfl : t = last := Option.some.inj htime
        simpa [haction] using hinactive
  have hseconds : cfg.cooldownHours * 3600 ≤ now - last :=
    (le_div_iff₀ (by norm_num)).mp hhours
  unfold cooldownSeconds
  linarith

theorem lastActionTime_update (state : State) (node : String) (cfg : Config) (ans : Answers)
    (probability : PythonFloats.PyFloat) :
    lastActionTime (Function.update state node (some (actionEntry cfg ans probability))) =
      Function.update (lastActionTime state) node (some ans.recordedAt) := by
  funext n
  by_cases hn : n = node
  · subst hn
    simp [lastActionTime, actionEntry, isoformat, IsoText.time]
  · simp [lastActionTime, hn]

/-- What holds of a state and of the remediations recorded so far when the clock
stands at `now`. -/
structure CooldownKept (cfg : Config) (now : ℚ) (state : State)
    (recorded : List (String × ℚ)) : Prop where
  past : ∀ r ∈ recorded, r.2 ≤ now
  spaced : Spaced Prod.fst Prod.snd (cooldownSeconds cfg) recorded
  covers : Covers Prod.fst Prod.snd (lastActionTime state) recorded

theorem CooldownKept.later {cfg : Config} {now later : ℚ} {state : State}
    {recorded : List (String × ℚ)} (h : CooldownKept cfg now state recorded)
    (hle : now ≤ later) : CooldownKept cfg later state recorded where
  past := fun r hr => le_trans (h.past r hr) hle
  spaced := h.spaced
  covers := h.covers

/-- The readings of the clock during a turn. -/
def Turn.readings (t : Turn) : List ℚ := [t.checkedAt, t.answers.eventAt, t.answers.recordedAt]

/-- **One turn of the loop.** -/
theorem cooldownKept_turn (cfg : Config) (now : ℚ) (w : World) (t : Turn)
    (h : CooldownKept cfg now w.state w.recorded)
    (hclock : (now :: t.readings).Pairwise (· ≤ ·)) :
    CooldownKept cfg (t.readings.getLastD now) (pollTurn cfg w t).state
      (pollTurn cfg w t).recorded := by
  simp only [Turn.readings, List.pairwise_cons, List.mem_cons, List.not_mem_nil, or_false,
    forall_eq_or_imp, forall_eq] at hclock
  obtain ⟨⟨hcheck, -, hrec⟩, ⟨-, hcheckrec⟩, -⟩ := hclock
  have hlast : t.readings.getLastD now = t.answers.recordedAt := rfl
  rw [hlast, pollTurn_state, pollTurn_recorded]
  cases hrecords : records cfg w.state t with
  | false => simpa using h.later hrec
  | true =>
      have hinactive := cooldown_inactive_of_records hrecords
      simp only [if_true]
      refine ⟨?_, ?_, ?_⟩
      · intro r hr
        rcases List.mem_append.mp hr with hr | hr
        · exact le_trans (h.past r hr) hrec
        · obtain rfl := List.mem_singleton.mp hr
          exact le_refl _
      · apply h.spaced.snoc h.covers
        intro last hlast
        exact le_trans (cooldown_over hinactive hlast) hcheckrec
      · rw [lastActionTime_update]
        exact h.covers.snoc (e := (t.node, t.answers.recordedAt))
          (fun r hr => le_trans (h.past r hr) hrec) (le_refl _)

/-! ## Polls and restarts -/

/-- What the controller goes through: polls, and restarts between them. -/
inductive Action
  | poll (now : ℚ) (turns : Option (List Turn))
  | restart

def Action.readings : Action → List ℚ
  | .poll now turns => now :: (turns.getD []).flatMap Turn.readings
  | .restart => []

def controllerStep (cfg : Config) (w : World) : Action → World
  | .poll now turns => pollOnce cfg now turns w
  | .restart => restart w

/-- **One action.**  The cooldown is kept from state file to state file. -/
theorem cooldownKept_step (cfg : Config) (now : ℚ) (w : World) (a : Action)
    (h : CooldownKept cfg now (loadState w.file) w.recorded)
    (hclock : (now :: a.readings).Pairwise (· ≤ ·)) :
    CooldownKept cfg (a.readings.getLastD now) (loadState (controllerStep cfg w a).file)
      (controllerStep cfg w a).recorded := by
  cases a with
  | restart => exact h
  | poll start turns =>
      have hstart : now ≤ start := (List.pairwise_cons.mp hclock).1 start List.mem_cons_self
      cases turns with
      | none => exact h.later hstart
      | some turns =>
          have hturns : (start :: turns.flatMap Turn.readings).Pairwise (· ≤ ·) :=
            (List.pairwise_cons.mp hclock).2
          -- the loop starts from the loaded file
          have hload : CooldownKept cfg start (pollLoad (setLastPoll w start)).state
              (pollLoad (setLastPoll w start)).recorded := h.later hstart
          have hloop := GuardedRuns.clocked_invariant (cooldownKept_turn cfg) hload hturns
          have hreadings : (Action.poll start (some turns)).readings.getLastD now =
              (turns.flatMap Turn.readings).getLastD start := List.getLastD_cons
          rw [hreadings]
          exact hloop

/-- **The cooldown is kept.**  On a nondecreasing clock, in any run of polls and
restarts from any state file, two remediations recorded for one node are at least
`COOLDOWN_HOURS` apart. -/
theorem remediations_spaced (cfg : Config) (file : StateFile) (nodes : String → JsonValues.Json)
    (run : List Action) (hclock : (run.flatMap Action.readings).Pairwise (· ≤ ·)) :
    (run.foldl (controllerStep cfg) (startWorld file nodes)).recorded.Pairwise
      (fun a b => a.1 = b.1 → cfg.cooldownHours ≤ (b.2 - a.2) / 3600) := by
  obtain ⟨start, hstart⟩ := GuardedRuns.exists_start hclock
  have hnew : CooldownKept cfg start (loadState (startWorld file nodes).file)
      (startWorld file nodes).recorded :=
    ⟨by simp [startWorld], spaced_nil, covers_nil _⟩
  have hrun := GuardedRuns.clocked_invariant (cooldownKept_step cfg) hnew hstart
  refine hrun.spaced.imp ?_
  intro a b hgap hnode
  rw [le_div_iff₀ (by norm_num)]
  have hseconds := hgap hnode
  unfold cooldownSeconds at hseconds
  linarith

/-- A poll at the time `t` in which Prometheus reports one node twice. -/
def pollTwice (node : String) (t : ℚ) : Action :=
  .poll t (some [turnAt node (9 / 10) t, turnAt node (9 / 10) t])

/-- Three polls and a restart: the second poll falls into the cooldown. -/
def threePolls : List Action :=
  [pollTwice "node-1" 0, pollTwice "node-1" 7200, .restart, pollTwice "node-1" 14400]

theorem remediations_spaced_three_polls :
    (threePolls.foldl (controllerStep defaultConfig)
        (startWorld .missing (fun _ => .null))).recorded = [("node-1", 0), ("node-1", 14400)] ∧
      (threePolls.foldl (controllerStep defaultConfig)
        (startWorld .missing (fun _ => .null))).recorded.Pairwise
          (fun a b => a.1 = b.1 → defaultConfig.cooldownHours ≤ (b.2 - a.2) / 3600) :=
  ⟨by decide +kernel,
    remediations_spaced defaultConfig .missing (fun _ => .null) threePolls (by decide +kernel)⟩

end FaultOracle.Remediation
