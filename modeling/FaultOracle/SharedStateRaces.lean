import FaultOracle.GuardedRuns
import FaultOracle.SharedState

/-!
# Races on the state file

What the file should hold after any interleaving of polls and confirmations, and exactly
which steps break it: a poll is harmful when it saves an entry of a confirmed node, a
confirmation when it saves a copy of the file which a poll has replaced meanwhile.
`fileLaw_iff` is about every run; programs that exclude each other never race
(`fileLaw_of_exclusive`).
-/

namespace FaultOracle.Remediation

open Webhook

/-- What the file should hold: no entry of a node confirmed and not remediated since,
and each entry recorded by a completed poll until its node is confirmed. -/
structure FileLaw (s : Shared) : Prop where
  cleared_absent : ∀ node, s.cleared node = true → s.file node = none
  kept_present : ∀ node entry, s.kept node = some entry → s.file node = some entry

/-- The step does no harm.  A poll saves no entry of a confirmed node; a confirmation
which saves its copy finds the file of every other node as it was when it loaded it,
and one which saves nothing finds no entry of its node. -/
def Harmless (s : Shared) : Step → Prop
  | .pollSave => s.polling = true → ∀ node, s.cleared node = true → s.controller.state node = none
  | .confirmFinish => ∀ node copy, s.hook = some (node, copy) →
      if (copy node).isSome then ∀ other, other ≠ node → s.file other = copy other
      else s.file node = none
  | _ => True

/-- What links the two copies to the file.  The dictionary of a poll differs from the
file only where the poll has recorded an action, or at a confirmed node; the file
differs from the copy of a confirmation only at entries which completed polls have
recorded. -/
structure CopiesTracked (s : Shared) : Prop where
  pending_in_state : s.polling = true → ∀ node entry, s.pending node = some entry →
    s.controller.state node = some entry
  state_of_file : s.polling = true → ∀ node, s.pending node = none →
    s.controller.state node = s.file node ∨ s.cleared node = true
  copy_of_file : ∀ confirmed copy, s.hook = some (confirmed, copy) → ∀ node,
    s.file node = copy node ∨ ∃ entry, s.kept node = some entry ∧ s.file node = some entry

/-! ## What the steps do to the file -/

/-- What is loaded back after a confirmation's save. -/
theorem loadState_removeEntry (copy : State) (node : String) (file : StateFile) :
    loadState (removeEntry copy node file) =
      if (copy node).isSome then delNode copy node else loadState file := by
  unfold removeEntry
  cases (copy node).isSome <;> rfl

/-- A turn of the loop leaves the file as it is. -/
theorem file_pollTurn (cfg : Config) (s : Shared) (t : Turn) :
    (sharedStep cfg s (.pollTurn t)).file = s.file := by
  cases hpolling : s.polling with
  | false => simp [sharedStep, hpolling]
  | true => simp [sharedStep, hpolling, Shared.file, pollTurn_file]

/-- A turn of the poll saves nothing. -/
theorem kept_pollTurn (cfg : Config) (s : Shared) (t : Turn) :
    (sharedStep cfg s (.pollTurn t)).kept = s.kept := by
  cases hpolling : s.polling <;> simp [sharedStep, hpolling]

section PollTurn

variable {cfg : Config} {s : Shared} {t : Turn} (hpolling : s.polling = true)
include hpolling

/-- A turn records its action in the poll's copy where it takes one. -/
theorem state_pollTurn : (sharedStep cfg s (.pollTurn t)).controller.state =
    if records cfg s.controller.state t then
      Function.update s.controller.state t.node (some (actionEntry cfg t.answers t.value))
    else s.controller.state := by
  simp [sharedStep, hpolling, pollTurn_state]

/-- A recorded action is pending until the poll saves. -/
theorem pending_pollTurn : (sharedStep cfg s (.pollTurn t)).pending =
    if records cfg s.controller.state t then
      Function.update s.pending t.node (some (actionEntry cfg t.answers t.value))
    else s.pending := by
  simp [sharedStep, hpolling]

/-- A recorded action takes back an earlier clearing. -/
theorem cleared_pollTurn : (sharedStep cfg s (.pollTurn t)).cleared =
    if records cfg s.controller.state t then Function.update s.cleared t.node false
    else s.cleared := by
  simp [sharedStep, hpolling]

end PollTurn

/-- A remediation ends the time in which its node counts as confirmed. -/
theorem cleared_of_pollTurn {cfg : Config} {s : Shared} {t : Turn} {node : String}
    (h : (sharedStep cfg s (.pollTurn t)).cleared node = true) : s.cleared node = true := by
  cases hpolling : s.polling with
  | false => simpa [sharedStep, hpolling] using h
  | true =>
      rw [cleared_pollTurn hpolling] at h
      cases hrecords : records cfg s.controller.state t with
      | false => simpa [hrecords] using h
      | true =>
          simp only [hrecords, if_true] at h
          by_cases hnode : node = t.node
          · rw [hnode, Function.update_self] at h
            cases h
          · rwa [Function.update_of_ne hnode] at h

section PollSave

variable {cfg : Config} {s : Shared} (hpolling : s.polling = true)
include hpolling

/-- The poll saves its whole copy. -/
theorem file_pollSave : (sharedStep cfg s .pollSave).file = s.controller.state := by
  simp [sharedStep, hpolling, Shared.file, pollSave]

/-- The poll's save keeps what was pending. -/
theorem kept_pollSave (node : String) :
    (sharedStep cfg s .pollSave).kept node = (s.pending node).or (s.kept node) := by
  simp [sharedStep, hpolling]

end PollSave

section ConfirmFinish

variable {cfg : Config} {s : Shared} {confirmed : String} {copy : State}
  (hhook : s.hook = some (confirmed, copy))
include hhook

/-- A confirmation saves the copy it loaded, less its node. -/
theorem file_confirmFinish :
    (sharedStep cfg s .confirmFinish).file =
      if (copy confirmed).isSome then delNode copy confirmed else s.file := by
  simp [sharedStep, hhook, Shared.file, loadState_removeEntry]

/-- A confirmation clears its node. -/
theorem cleared_confirmFinish :
    (sharedStep cfg s .confirmFinish).cleared = Function.update s.cleared confirmed true := by
  simp [sharedStep, hhook]

/-- A confirmation gives up what was kept for its node. -/
theorem kept_confirmFinish :
    (sharedStep cfg s .confirmFinish).kept = Function.update s.kept confirmed none := by
  simp [sharedStep, hhook]

end ConfirmFinish

/-- A save of the poll keeps the law unless it brings back a confirmed node: whatever
was recorded before is in its dictionary. -/
theorem fileLaw_pollSave_iff (cfg : Config) {s : Shared} (htracked : CopiesTracked s)
    (hlaw : FileLaw s) :
    FileLaw (sharedStep cfg s .pollSave) ↔ Harmless s .pollSave := by
  cases hpolling : s.polling with
  | false => simp [sharedStep, Harmless, hpolling, hlaw]
  | true =>
      have hcleared : (sharedStep cfg s .pollSave).cleared = s.cleared := by
        simp [sharedStep, hpolling]
      constructor
      · intro h _ node hnode
        have hafter := h.cleared_absent node (by rw [hcleared]; exact hnode)
        rwa [file_pollSave hpolling] at hafter
      · intro h
        refine ⟨?_, ?_⟩
        · intro node hnode
          rw [hcleared] at hnode
          rw [file_pollSave hpolling]
          exact h hpolling node hnode
        · intro node entry hentry
          rw [file_pollSave hpolling]
          rw [kept_pollSave hpolling] at hentry
          cases hpending : s.pending node with
          | some recorded =>
              rw [hpending, Option.some_or] at hentry
              exact htracked.pending_in_state hpolling node entry (hpending.trans hentry)
          | none =>
              rw [hpending, Option.none_or] at hentry
              have hold : s.file node = some entry := hlaw.kept_present node entry hentry
              rcases htracked.state_of_file hpolling node hpending with hsame | hconfirmed
              · rw [hsame, hold]
              · rw [hlaw.cleared_absent node hconfirmed] at hold
                cases hold

/-- The file after a confirmation is lawful as soon as it has no entry of the confirmed
node and is otherwise as it was. -/
theorem fileLaw_confirmed {s s' : Shared} (hlaw : FileLaw s) {confirmed : String}
    (hcleared : s'.cleared = Function.update s.cleared confirmed true)
    (hkept : s'.kept = Function.update s.kept confirmed none)
    (habsent : s'.file confirmed = none)
    (hsame : ∀ other, other ≠ confirmed → s'.file other = s.file other) : FileLaw s' := by
  refine ⟨?_, ?_⟩
  · intro node hnode
    by_cases hconfirmed : node = confirmed
    · rw [hconfirmed]
      exact habsent
    · rw [hcleared, Function.update_of_ne hconfirmed] at hnode
      rw [hsame node hconfirmed]
      exact hlaw.cleared_absent node hnode
  · intro node entry hentry
    by_cases hconfirmed : node = confirmed
    · rw [hkept, hconfirmed, Function.update_self] at hentry
      cases hentry
    · rw [hkept, Function.update_of_ne hconfirmed] at hentry
      rw [hsame node hconfirmed]
      exact hlaw.kept_present node entry hentry

/-- The end of a confirmation keeps the law unless its copy is out of date. -/
theorem fileLaw_confirmFinish_iff (cfg : Config) {s : Shared} (htracked : CopiesTracked s)
    (hlaw : FileLaw s) :
    FileLaw (sharedStep cfg s .confirmFinish) ↔ Harmless s .confirmFinish := by
  cases hhook : s.hook with
  | none => simp [sharedStep, Harmless, hhook, hlaw]
  | some hook =>
      obtain ⟨confirmed, copy⟩ := hook
      have hfile : (sharedStep cfg s .confirmFinish).file = _ := file_confirmFinish hhook
      have hcleared : (sharedStep cfg s .confirmFinish).cleared = _ := cleared_confirmFinish hhook
      have hkept : (sharedStep cfg s .confirmFinish).kept = _ := kept_confirmFinish hhook
      have hharmless : Harmless s .confirmFinish ↔
          if (copy confirmed).isSome then
            ∀ other, other ≠ confirmed → s.file other = copy other
          else s.file confirmed = none := by
        simp [Harmless, hhook]
      rw [hharmless]
      cases hentry : (copy confirmed).isSome with
      | false =>
          simp only [hentry, Bool.false_eq_true, if_false] at hfile ⊢
          constructor
          · intro h
            rw [← hfile]
            exact h.cleared_absent confirmed (by simp [hcleared])
          · intro h
            apply fileLaw_confirmed hlaw hcleared hkept
            · rw [hfile]
              exact h
            · intro other _
              rw [hfile]
      | true =>
          simp only [hentry, if_true] at hfile ⊢
          have hother : ∀ other, other ≠ confirmed →
              (sharedStep cfg s .confirmFinish).file other = copy other := by
            intro other hne
            rw [hfile, delNode, Function.update_of_ne hne]
          constructor
          · intro h other hne
            rcases htracked.copy_of_file confirmed copy hhook other with
              hsame | ⟨entry, hrecorded, hpresent⟩
            · exact hsame
            · have hafter := h.kept_present other entry (by
                rw [hkept, Function.update_of_ne hne]
                exact hrecorded)
              rw [hpresent, ← hafter, hother other hne]
          · intro h
            apply fileLaw_confirmed hlaw hcleared hkept
            · rw [hfile, delNode, Function.update_self]
            · intro other hne
              rw [hother other hne, h other hne]

/-- **One step.**  A step keeps the law exactly when it is harmless. -/
theorem fileLaw_step_iff (cfg : Config) (s : Shared) (a : Step) (htracked : CopiesTracked s)
    (hlaw : FileLaw s) : FileLaw (sharedStep cfg s a) ↔ Harmless s a := by
  cases a with
  | pollSave => exact fileLaw_pollSave_iff cfg htracked hlaw
  | confirmFinish => exact fileLaw_confirmFinish_iff cfg htracked hlaw
  | pollLoad now =>
      have hkeeps : FileLaw (sharedStep cfg s (.pollLoad now)) := by
        cases hpolling : s.polling with
        | false =>
            simp only [sharedStep, hpolling]
            exact ⟨hlaw.cleared_absent, hlaw.kept_present⟩
        | true => simpa [sharedStep, hpolling] using hlaw
      exact ⟨fun _ => trivial, fun _ => hkeeps⟩
  | confirmLoad node =>
      have hkeeps : FileLaw (sharedStep cfg s (.confirmLoad node)) := by
        cases hhook : s.hook with
        | none =>
            simp only [sharedStep, hhook]
            exact ⟨hlaw.cleared_absent, hlaw.kept_present⟩
        | some hook => simpa [sharedStep, hhook] using hlaw
      exact ⟨fun _ => trivial, fun _ => hkeeps⟩
  | pollTurn t =>
      have hkeeps : FileLaw (sharedStep cfg s (.pollTurn t)) := by
        refine ⟨?_, ?_⟩
        · intro node hnode
          rw [file_pollTurn]
          exact hlaw.cleared_absent node (cleared_of_pollTurn hnode)
        · intro node entry hentry
          rw [file_pollTurn]
          rw [kept_pollTurn] at hentry
          exact hlaw.kept_present node entry hentry
      exact ⟨fun _ => trivial, fun _ => hkeeps⟩

/-! ## The copies stay tracked -/

/-- A turn of the poll keeps the copies tracked. -/
theorem copiesTracked_pollTurn (cfg : Config) {s : Shared} (t : Turn)
    (h : CopiesTracked s) : CopiesTracked (sharedStep cfg s (.pollTurn t)) := by
  have hcopies : ∀ confirmed copy, (sharedStep cfg s (.pollTurn t)).hook = some (confirmed, copy) →
      ∀ node, (sharedStep cfg s (.pollTurn t)).file node = copy node ∨
        ∃ entry, (sharedStep cfg s (.pollTurn t)).kept node = some entry ∧
          (sharedStep cfg s (.pollTurn t)).file node = some entry := by
    intro confirmed copy hhook node
    rw [file_pollTurn, kept_pollTurn]
    apply h.copy_of_file confirmed copy
    cases hpolling : s.polling <;> simpa [sharedStep, hpolling] using hhook
  cases hpolling : s.polling with
  | false => simpa [sharedStep, hpolling] using h
  | true =>
      refine ⟨?_, ?_, hcopies⟩
      · intro _ node entry hentry
        rw [pending_pollTurn hpolling] at hentry
        rw [state_pollTurn hpolling]
        cases hrecords : records cfg s.controller.state t with
        | false =>
            rw [hrecords, if_neg Bool.false_ne_true] at hentry
            exact h.pending_in_state hpolling node entry hentry
        | true =>
            rw [hrecords, if_pos rfl] at hentry
            by_cases hnode : node = t.node
            · rw [hnode, Function.update_self] at hentry
              rw [if_pos rfl, hnode, Function.update_self, hentry]
            · rw [Function.update_of_ne hnode] at hentry
              rw [if_pos rfl, Function.update_of_ne hnode]
              exact h.pending_in_state hpolling node entry hentry
      · intro _ node hnone
        rw [pending_pollTurn hpolling] at hnone
        rw [state_pollTurn hpolling, cleared_pollTurn hpolling, file_pollTurn]
        cases hrecords : records cfg s.controller.state t with
        | false =>
            rw [hrecords, if_neg Bool.false_ne_true] at hnone
            exact h.state_of_file hpolling node hnone
        | true =>
            rw [hrecords, if_pos rfl] at hnone
            by_cases hnode : node = t.node
            · rw [hnode, Function.update_self] at hnone
              cases hnone
            · rw [Function.update_of_ne hnode] at hnone
              rw [if_pos rfl, if_pos rfl, Function.update_of_ne hnode,
                Function.update_of_ne hnode]
              exact h.state_of_file hpolling node hnone

/-- A save changes the file only at entries which the poll has recorded, if it brings
back no confirmed node. -/
theorem copiesTracked_pollSave (cfg : Config) {s : Shared} (h : CopiesTracked s)
    (hlaw : FileLaw s) (hharmless : Harmless s .pollSave) :
    CopiesTracked (sharedStep cfg s .pollSave) := by
  cases hpolling : s.polling with
  | false => simpa [sharedStep, hpolling] using h
  | true =>
      have hidle : (sharedStep cfg s .pollSave).polling = false := by
        simp [sharedStep, hpolling]
      refine ⟨?_, ?_, ?_⟩
      · intro hpoll
        rw [hidle] at hpoll
        cases hpoll
      · intro hpoll
        rw [hidle] at hpoll
        cases hpoll
      · intro confirmed copy hhook node
        have hcopy : s.hook = some (confirmed, copy) := by
          simpa [sharedStep, hpolling] using hhook
        have hold := h.copy_of_file confirmed copy hcopy node
        rw [file_pollSave hpolling, kept_pollSave hpolling]
        cases hpending : s.pending node with
        | some entry =>
            right
            exact ⟨entry, rfl, h.pending_in_state hpolling node entry hpending⟩
        | none =>
            have hsame : s.controller.state node = s.file node := by
              rcases h.state_of_file hpolling node hpending with hsame | hconfirmed
              · exact hsame
              · rw [hharmless hpolling node hconfirmed, hlaw.cleared_absent node hconfirmed]
            rw [hsame]
            exact hold

/-- A harmless end of a confirmation changes the file at its node only. -/
theorem copiesTracked_confirmFinish (cfg : Config) {s : Shared} (h : CopiesTracked s)
    (hharmless : Harmless s .confirmFinish) :
    CopiesTracked (sharedStep cfg s .confirmFinish) := by
  cases hhook : s.hook with
  | none => simpa [sharedStep, hhook] using h
  | some hook =>
      obtain ⟨confirmed, copy⟩ := hook
      have hidle : (sharedStep cfg s .confirmFinish).hook = none := by
        simp [sharedStep, hhook]
      have hother : ∀ node, node ≠ confirmed →
          (sharedStep cfg s .confirmFinish).file node = s.file node := by
        intro node hne
        have hcopy := hharmless confirmed copy hhook
        rw [file_confirmFinish hhook]
        cases hentry : (copy confirmed).isSome with
        | false => rfl
        | true =>
            rw [hentry, if_pos rfl] at hcopy
            rw [if_pos rfl, delNode, Function.update_of_ne hne, hcopy node hne]
      refine ⟨?_, ?_, ?_⟩
      · intro hpolling
        simp only [sharedStep, hhook] at hpolling ⊢
        exact h.pending_in_state hpolling
      · intro hpolling node hnone
        rw [cleared_confirmFinish hhook]
        by_cases hne : node = confirmed
        · right
          rw [hne, Function.update_self]
        · rw [hother node hne, Function.update_of_ne hne]
          simp only [sharedStep, hhook] at hpolling hnone ⊢
          exact h.state_of_file hpolling node hnone
      · intro node copy hhook'
        rw [hidle] at hhook'
        cases hhook'

/-- **One step keeps the copies tracked**, if the law held before and does after. -/
theorem copiesTracked_step (cfg : Config) (s : Shared) (a : Step) (h : CopiesTracked s)
    (hlaw : FileLaw s) (hnext : FileLaw (sharedStep cfg s a)) :
    CopiesTracked (sharedStep cfg s a) := by
  have hharmless : Harmless s a := (fileLaw_step_iff cfg s a h hlaw).mp hnext
  cases a with
  | pollTurn t => exact copiesTracked_pollTurn cfg t h
  | pollSave => exact copiesTracked_pollSave cfg h hlaw hharmless
  | confirmFinish => exact copiesTracked_confirmFinish cfg h hharmless
  | pollLoad now =>
      cases hpolling : s.polling with
      | true => simpa [sharedStep, hpolling] using h
      | false =>
          simp only [sharedStep, hpolling, Bool.false_eq_true, if_false]
          refine ⟨?_, ?_, ?_⟩
          · intro _ node entry hentry
            cases hentry
          · intro _ node _
            exact Or.inl rfl
          · exact h.copy_of_file
  | confirmLoad node =>
      cases hhook : s.hook with
      | some hook => simpa [sharedStep, hhook] using h
      | none =>
          simp only [sharedStep, hhook]
          refine ⟨h.pending_in_state, h.state_of_file, ?_⟩
          intro confirmed copy hcopy other
          left
          simp only [Option.some.injEq, Prod.mk.injEq] at hcopy
          rw [← hcopy.2]
          rfl

theorem fileLaw_start (w : World) : FileLaw (startShared w) where
  cleared_absent := fun _ h => by cases h
  kept_present := fun _ _ h => by cases h

theorem copiesTracked_start (w : World) : CopiesTracked (startShared w) where
  pending_in_state := fun h => by cases h
  state_of_file := fun h => by cases h
  copy_of_file := fun _ _ h => by cases h

/-- **The shared file.**  In a run of both programs from any state file, whatever the
order of their steps, the file holds what it should throughout if and only if every
step is harmless. -/
theorem fileLaw_iff (cfg : Config) (w : World) (run : List Step) :
    GuardedRuns.Throughout (sharedStep cfg) FileLaw (startShared w) run ↔
      GuardedRuns.Meets (sharedStep cfg) Harmless (startShared w) run :=
  GuardedRuns.throughout_iff_meets CopiesTracked (copiesTracked_step cfg)
    (fileLaw_step_iff cfg) (copiesTracked_start w) (fileLaw_start w) run

/-- A replacement confirmed while a poll holds its copy of the file. -/
def confirmedDuringPoll : List Step :=
  [.pollLoad 0, .confirmLoad "node-1", .confirmFinish, .pollSave]

/-- A poll which comes between the load and the save of a confirmation. -/
def polledDuringConfirm : List Step :=
  [.confirmLoad "node-1", .pollLoad 0, .pollTurn (turnAt "node-2" (9 / 10) 0), .pollSave,
    .confirmFinish]

/-- After the first run the cleared node is back in the file, after the second the
recorded action on the other node is lost. -/
theorem clear_and_record_lost :
    let start := startShared (startWorld oneNodeFile (fun _ => .null))
    let first := confirmedDuringPoll.foldl (sharedStep defaultConfig) start
    let second := polledDuringConfirm.foldl (sharedStep defaultConfig) start
    (first.cleared "node-1" = true ∧ first.file "node-1" ≠ none) ∧
      (second.kept "node-2" ≠ none ∧ second.file "node-2" = none) ∧
      ¬ GuardedRuns.Throughout (sharedStep defaultConfig) FileLaw start confirmedDuringPoll ∧
      ¬ GuardedRuns.Throughout (sharedStep defaultConfig) FileLaw start polledDuringConfirm := by
  intro start first second
  have hback : first.cleared "node-1" = true ∧ first.file "node-1" ≠ none := by
    decide +kernel
  have hlost : second.kept "node-2" ≠ none ∧ second.file "node-2" = none := by
    decide +kernel
  refine ⟨hback, hlost, ?_, ?_⟩
  · intro h
    have hlaw : FileLaw first := h.at_end
    exact hback.2 (hlaw.cleared_absent "node-1" hback.1)
  · intro h
    have hlaw : FileLaw second := h.at_end
    obtain ⟨entry, hentry⟩ := Option.ne_none_iff_exists'.mp hlost.1
    rw [hlaw.kept_present "node-2" entry hentry] at hlost
    cases hlost.2

/-! ## Polls and confirmations which exclude each other -/

/-- A poll starts only when no confirmation is in progress, and the other way round. -/
def Exclusive (s : Shared) : Step → Prop
  | .pollLoad _ => s.hook = none
  | .confirmLoad _ => s.polling = false
  | _ => True

/-- What exclusion adds: the copies are the file, but for what the poll has recorded. -/
structure Locked (s : Shared) : Prop where
  law : FileLaw s
  alone : s.polling = true → s.hook = none
  state_eq : s.polling = true → ∀ node,
    s.controller.state node = (s.pending node).or (s.file node)
  pending_live : s.polling = true → ∀ node, s.cleared node = true → s.pending node = none
  copy_eq : ∀ confirmed copy, s.hook = some (confirmed, copy) → copy = s.file

/-- Under the lock the copies are tracked. -/
theorem Locked.tracked {s : Shared} (h : Locked s) : CopiesTracked s where
  pending_in_state := fun hpolling node entry hentry => by
    rw [h.state_eq hpolling, hentry, Option.some_or]
  state_of_file := fun hpolling node hnone => by
    left
    rw [h.state_eq hpolling, hnone, Option.none_or]
  copy_of_file := fun confirmed copy hhook node => by
    left
    rw [h.copy_eq confirmed copy hhook]

/-- Under the lock every step is harmless. -/
theorem Locked.harmless {s : Shared} (h : Locked s) (a : Step) : Harmless s a := by
  cases a with
  | pollLoad now => trivial
  | pollTurn t => trivial
  | confirmLoad node => trivial
  | pollSave =>
      intro hpolling node hcleared
      rw [h.state_eq hpolling, h.pending_live hpolling node hcleared, Option.none_or]
      exact h.law.cleared_absent node hcleared
  | confirmFinish =>
      intro confirmed copy hhook
      have hcopy : copy = s.file := h.copy_eq confirmed copy hhook
      rw [hcopy]
      cases hentry : s.file confirmed with
      | none => rfl
      | some entry => exact fun _ _ => rfl

/-- A turn of the poll keeps the lock's invariant. -/
theorem locked_pollTurn (cfg : Config) {s : Shared} (t : Turn) (h : Locked s)
    (hlaw : FileLaw (sharedStep cfg s (.pollTurn t))) :
    Locked (sharedStep cfg s (.pollTurn t)) := by
  cases hpolling : s.polling with
  | false => simpa [sharedStep, hpolling] using h
  | true =>
      have hhook : (sharedStep cfg s (.pollTurn t)).hook = none := by
        simp [sharedStep, hpolling, h.alone hpolling]
      refine ⟨hlaw, fun _ => hhook, ?_, ?_, ?_⟩
      · intro _ node
        rw [state_pollTurn hpolling, pending_pollTurn hpolling, file_pollTurn]
        cases records cfg s.controller.state t with
        | false => exact h.state_eq hpolling node
        | true =>
            rw [if_pos rfl, if_pos rfl]
            by_cases hnode : node = t.node
            · rw [hnode, Function.update_self, Function.update_self, Option.some_or]
            · rw [Function.update_of_ne hnode, Function.update_of_ne hnode]
              exact h.state_eq hpolling node
      · intro _ node hcleared
        rw [cleared_pollTurn hpolling] at hcleared
        rw [pending_pollTurn hpolling]
        cases hrecords : records cfg s.controller.state t with
        | false =>
            rw [hrecords, if_neg Bool.false_ne_true] at hcleared
            exact h.pending_live hpolling node hcleared
        | true =>
            rw [hrecords, if_pos rfl] at hcleared
            rw [if_pos rfl]
            by_cases hnode : node = t.node
            · rw [hnode, Function.update_self] at hcleared
              cases hcleared
            · rw [Function.update_of_ne hnode] at hcleared ⊢
              exact h.pending_live hpolling node hcleared
      · intro confirmed copy hcopy
        rw [hhook] at hcopy
        cases hcopy

/-- A step by the holder of the lock keeps its invariant. -/
theorem locked_step (cfg : Config) (s : Shared) (a : Step) (h : Locked s)
    (hexclusive : Exclusive s a) : Locked (sharedStep cfg s a) := by
  have hlaw : FileLaw (sharedStep cfg s a) :=
    (fileLaw_step_iff cfg s a h.tracked h.law).mpr (h.harmless a)
  cases a with
  | pollLoad now =>
      cases hpolling : s.polling with
      | true => simpa [sharedStep, hpolling] using h
      | false =>
          have hhook : s.hook = none := hexclusive
          refine ⟨hlaw, ?_, ?_, ?_, ?_⟩
          · simp [sharedStep, hpolling, hhook]
          · intro _ node
            simp [sharedStep, hpolling, Shared.file, pollLoad, setLastPoll]
          · simp [sharedStep, hpolling]
          · simp [sharedStep, hpolling, hhook]
  | pollTurn t => exact locked_pollTurn cfg t h hlaw
  | pollSave =>
      cases hpolling : s.polling with
      | false => simpa [sharedStep, hpolling] using h
      | true =>
          have hhook : s.hook = none := h.alone hpolling
          exact ⟨hlaw, by simp [sharedStep, hpolling], by simp [sharedStep, hpolling],
            by simp [sharedStep, hpolling], by simp [sharedStep, hpolling, hhook]⟩
  | confirmLoad node =>
      have hpolling : s.polling = false := hexclusive
      cases hhook : s.hook with
      | some hook => simpa [sharedStep, hhook] using h
      | none =>
          refine ⟨hlaw, ?_, ?_, ?_, ?_⟩
          · simp [sharedStep, hhook, hpolling]
          · simp [sharedStep, hhook, hpolling]
          · simp [sharedStep, hhook, hpolling]
          · intro confirmed copy hcopy
            simp only [sharedStep, hhook, Option.some.injEq, Prod.mk.injEq] at hcopy ⊢
            exact hcopy.2.symm
  | confirmFinish =>
      cases hhook : s.hook with
      | none => simpa [sharedStep, hhook] using h
      | some hook =>
          have hpolling : s.polling = false := by
            by_contra hpolling
            rw [Bool.not_eq_false] at hpolling
            rw [h.alone hpolling] at hhook
            cases hhook
          exact ⟨hlaw, by simp [sharedStep, hhook], by simp [sharedStep, hhook, hpolling],
            by simp [sharedStep, hhook, hpolling], by simp [sharedStep, hhook]⟩

/-- **A lock would do.**  When polls and confirmations exclude each other, the file
holds what it should throughout. -/
theorem fileLaw_of_exclusive (cfg : Config) (w : World) {run : List Step}
    (hrun : GuardedRuns.Meets (sharedStep cfg) Exclusive (startShared w) run) :
    GuardedRuns.Throughout (sharedStep cfg) FileLaw (startShared w) run := by
  have hstart : Locked (startShared w) :=
    { law := fileLaw_start w
      alone := fun h => by cases h
      state_eq := fun h => by cases h
      pending_live := fun h => by cases h
      copy_eq := fun _ _ h => by cases h }
  have hlocked := GuardedRuns.throughout_of_meets (locked_step cfg) hstart hrun
  exact hlocked.mono fun s h => h.law

end FaultOracle.Remediation
