import FaultOracle.RemediationController
import FaultOracle.ReplacementWebhook

/-!
# Two programs on one state file

The controller and the webhook server both read the state file, change their copy
and write it back as a whole, without a lock.  Each is sequential in itself, so there
is at most one poll and at most one confirmation in progress, and their steps
interleave in any order.  The steps of one of them without anything in between are the
function which the program calls (`poll_in_steps`, `confirm_in_steps`).

Three records of the past are kept beside the state: the entries which the poll in
progress has recorded, those recorded by completed polls, and the nodes whose
replacement was confirmed and which were not remediated since.
-/

namespace FaultOracle.Remediation

open Webhook

/-- The state of both programs and of the file they share. -/
structure Shared where
  controller : World
  polling : Bool
  atRisk : Nat
  /-- The node and the loaded dictionary of the confirmation in progress. -/
  hook : Option (String × State)
  pending : State
  kept : State
  cleared : String → Bool

def Shared.file (s : Shared) : State := loadState s.controller.file

/-- A step of `poll_once` or of `handle_replacement_confirmed`.  A turn of the loop
does not touch the file, so it counts as one step; a confirmation is over with its
last access to the file. -/
inductive Step
  | pollLoad (now : ℚ)
  | pollTurn (t : Turn)
  | pollSave
  | confirmLoad (node : String)
  | confirmFinish

/-- A step which its program cannot take now does nothing. -/
def sharedStep (cfg : Config) (s : Shared) : Step → Shared
  | .pollLoad now =>
      if s.polling then s
      else
        { s with
          controller := pollLoad (setLastPoll s.controller now)
          polling := true
          atRisk := 0
          pending := fun _ => none }
  | .pollTurn t =>
      if s.polling then
        let recorded := records cfg s.controller.state t
        { s with
          controller := pollTurn cfg s.controller t
          atRisk := if aboveThreshold cfg t then s.atRisk + 1 else s.atRisk
          pending :=
            if recorded then
              Function.update s.pending t.node (some (actionEntry cfg t.answers t.value))
            else s.pending
          cleared := if recorded then Function.update s.cleared t.node false else s.cleared }
      else s
  | .pollSave =>
      if s.polling then
        { s with
          controller := pollSave s.atRisk s.controller
          polling := false
          kept := fun node => (s.pending node).or (s.kept node) }
      else s
  | .confirmLoad node =>
      match s.hook with
      | some _ => s
      | none => { s with hook := some (node, s.file) }
  | .confirmFinish =>
      match s.hook with
      | none => s
      | some (node, copy) =>
          { s with
            controller :=
              { s.controller with file := removeEntry copy node s.controller.file }
            hook := none
            kept := Function.update s.kept node none
            cleared := Function.update s.cleared node true }

/-- Both programs idle in front of a state file. -/
def startShared (w : World) : Shared where
  controller := w
  polling := false
  atRisk := 0
  hook := none
  pending := fun _ => none
  kept := fun _ => none
  cleared := fun _ => false

/-! ## The steps taken in one go -/

theorem turns_in_steps (cfg : Config) (turns : List Turn) {s : Shared}
    (hpolling : s.polling = true) :
    let after := (turns.map Step.pollTurn).foldl (sharedStep cfg) s
    after.polling = true ∧ after.controller = turns.foldl (pollTurn cfg) s.controller ∧
      after.atRisk = s.atRisk + (turns.filter (aboveThreshold cfg)).length := by
  induction turns generalizing s with
  | nil => exact ⟨hpolling, rfl, rfl⟩
  | cons t turns ih =>
      have hnext : (sharedStep cfg s (.pollTurn t)).polling = true := by
        simp [sharedStep, hpolling]
      obtain ⟨hpoll, hcontroller, hrisk⟩ := ih hnext
      refine ⟨hpoll, ?_, ?_⟩
      · rw [List.map_cons, List.foldl_cons, hcontroller]
        simp [sharedStep, hpolling]
      · rw [List.map_cons, List.foldl_cons, hrisk]
        cases habove : aboveThreshold cfg t with
        | false => simp [sharedStep, hpolling, habove]
        | true =>
            simp only [sharedStep, hpolling, habove, if_true, List.filter_cons_of_pos,
              List.length_cons]
            omega

/-- The steps of a poll without anything in between are `poll_once`. -/
theorem poll_in_steps (cfg : Config) (now : ℚ) (turns : List Turn) {s : Shared}
    (hidle : s.polling = false) :
    ((Step.pollLoad now :: turns.map Step.pollTurn ++ [Step.pollSave]).foldl (sharedStep cfg)
        s).controller = pollOnce cfg now (some turns) s.controller := by
  have hloaded : (sharedStep cfg s (.pollLoad now)).polling = true := by
    simp [sharedStep, hidle]
  obtain ⟨hpolling, hcontroller, hrisk⟩ := turns_in_steps cfg turns hloaded
  rw [List.cons_append, List.foldl_cons, List.foldl_append, List.foldl_cons, List.foldl_nil,
    sharedStep.eq_def]
  simp only [hpolling, if_true, hcontroller, hrisk]
  simp [sharedStep, hidle, pollOnce]

/-- The two steps of a confirmation are what `handle_replacement_confirmed` does to the
state file. -/
theorem confirm_in_steps (cfg : Config) (node : String) (component : JsonValues.Json) (now : ℚ)
    {s : Shared} (hidle : s.hook = none) {w : HookWorld} (hfile : w.file = s.controller.file) :
    ([.confirmLoad node, .confirmFinish].foldl (sharedStep cfg) s).controller.file =
      (handleReplacementConfirmed now (.str node) component w).1.file := by
  have hcount : ∀ v : HookWorld, (hookCounterInc v "replacement_confirmed_total" "component"
      component).1.file = v.file := by
    intro v
    unfold hookCounterInc
    cases component.key? <;> rfl
  simp [sharedStep, hidle, handleReplacementConfirmed, JsonValues.Json.key?, hcount,
    touchRetrain, removeNode, hfile, Shared.file]

end FaultOracle.Remediation
