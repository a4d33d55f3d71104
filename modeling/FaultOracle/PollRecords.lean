import FaultOracle.GuardedRuns
import FaultOracle.RemediationController

/-!
# What a poll saves of its remediations

A remediation is recorded by the last statements of `remediate_node`, after the
reporting steps; and the records reach the file at the end of the poll, unless the
loop is left by an exception.  `create_event` cannot prevent the record, and
whatever a remediation raises stays in its own turn.  `push_loki` can: it builds the
request object outside its `try`, where a `LOKI_URL` without a scheme raises.
-/

namespace FaultOracle.Remediation

/-- The saved file has an entry of this poll for the node. -/
def SavedThisPoll (w : World) (node : String) : Prop :=
  ∃ t entry, (node, t) ∈ w.recorded ∧ loadState w.file node = some entry ∧
    entry.lastAction = isoformat t

/-- After a poll every node whose two patches succeeded, and every remediation
recorded, has its new entry in the state file. -/
structure PollKeepsRecords (w : World) : Prop where
  patched_saved : ∀ node ∈ w.patched, SavedThisPoll w node
  recorded_saved : ∀ r ∈ w.recorded, SavedThisPoll w r.1

/-- The world before a poll, with nothing remembered of earlier ones. -/
def beforePoll (w : World) : World := { w with patched := [], recorded := [] }

/-- Every recorded node has an entry of one of the recorded times. -/
def RecordedInState (w : World) : Prop :=
  ∀ r ∈ w.recorded, ∃ t entry, (r.1, t) ∈ w.recorded ∧ w.state r.1 = some entry ∧
    entry.lastAction = isoformat t

theorem recordedInState_turn (cfg : Config) (w : World) (t : Turn) (h : RecordedInState w) :
    RecordedInState (pollTurn cfg w t) := by
  unfold RecordedInState
  rw [pollTurn_state, pollTurn_recorded]
  cases hrecords : records cfg w.state t with
  | false =>
      simp only [Bool.false_eq_true, if_false]
      exact h
  | true =>
      simp only [if_true]
      intro r hr
      by_cases hnode : r.1 = t.node
      · refine ⟨t.answers.recordedAt, actionEntry cfg t.answers t.value, ?_, ?_, rfl⟩
        · simp [hnode]
        · simp [hnode]
      · have hold : r ∈ w.recorded := by
          rcases List.mem_append.mp hr with hr | hr
          · exact hr
          · exact absurd (congrArg Prod.fst (List.mem_singleton.mp hr)) hnode
        obtain ⟨time, entry, hmem, hentry, hlast⟩ := h r hold
        refine ⟨time, entry, List.mem_append_left _ hmem, ?_, hlast⟩
        rw [Function.update_of_ne hnode]
        exact hentry

/-- Every node that was patched has been recorded. -/
def PatchedRecorded (w : World) : Prop := ∀ node ∈ w.patched, ∃ t, (node, t) ∈ w.recorded

/-- Where `push_loki` raises nothing, patching a node leads to its record. -/
theorem patchedRecorded_turn {cfg : Config} (hloki : lokiAccepts cfg = true) (w : World)
    (t : Turn) (h : PatchedRecorded w) : PatchedRecorded (pollTurn cfg w t) := by
  have hkeep : ∀ node time, (node, time) ∈ w.recorded →
      (node, time) ∈ (pollTurn cfg w t).recorded := by
    intro node time hmem
    rw [pollTurn_recorded]
    cases records cfg w.state t <;> simp [hmem]
  intro node hnode
  rw [pollTurn_patched] at hnode
  cases hpatch : acts cfg w.state t && bothPatched cfg t.answers with
  | false =>
      obtain ⟨time, hmem⟩ := h node (by simpa [hpatch] using hnode)
      exact ⟨time, hkeep node time hmem⟩
  | true =>
      simp only [hpatch, if_true] at hnode
      rcases List.mem_append.mp hnode with hnode | hnode
      · obtain ⟨time, hmem⟩ := h node hnode
        exact ⟨time, hkeep node time hmem⟩
      · obtain rfl := List.mem_singleton.mp hnode
        have hrecords : records cfg w.state t = true := by
          simp only [Bool.and_eq_true] at hpatch
          simp [records, recordsAction, hpatch.1, hpatch.2, hloki]
        refine ⟨t.answers.recordedAt, ?_⟩
        rw [pollTurn_recorded, hrecords]
        simp

/-- Where `push_loki` raises, no live turn records anything: the dictionary of the
poll stays the loaded one, and each turn that acts is judged by it. -/
theorem turns_without_loki {cfg : Config} (hloki : lokiAccepts cfg = false)
    (hdry : cfg.dryRun = false) (turns : List Turn) (w : World) :
    (turns.foldl (pollTurn cfg) w).recorded = w.recorded ∧
      (turns.foldl (pollTurn cfg) w).patched = w.patched ++
        (turns.filter (fun t => acts cfg w.state t && bothPatched cfg t.answers)).map
          Turn.node := by
  induction turns generalizing w with
  | nil => simp
  | cons t turns ih =>
      have hnever : records cfg w.state t = false := by
        simp [records, recordsAction, hdry, hloki]
      have hstate : (pollTurn cfg w t).state = w.state := by simp [pollTurn_state, hnever]
      have hrec : (pollTurn cfg w t).recorded = w.recorded := by
        simp [pollTurn_recorded, hnever]
      obtain ⟨hrecorded, hpatched⟩ := ih (pollTurn cfg w t)
      rw [List.foldl_cons, hrecorded, hpatched, hstate, hrec, pollTurn_patched]
      refine ⟨rfl, ?_⟩
      cases hpatch : acts cfg w.state t && bothPatched cfg t.answers <;> simp [hpatch]

/-- In a dry run no node is patched. -/
theorem turns_dry {cfg : Config} (hdry : cfg.dryRun = true) (turns : List Turn) (w : World)
    (h : w.patched = []) : (turns.foldl (pollTurn cfg) w).patched = [] := by
  have hturn : ∀ w t, w.patched = [] → (pollTurn cfg w t).patched = [] := by
    intro w t h
    rw [pollTurn_patched]
    simp [bothPatched, hdry, h]
  exact GuardedRuns.foldl_invariant (P := fun v : World => v.patched = []) hturn h turns

/-- The save at the end writes the dictionary which the loop has built. -/
theorem recorded_saved_of_turns (cfg : Config) (atRisk : Nat) (turns : List Turn) (w : World)
    (h : w.recorded = []) :
    ∀ r ∈ (turns.foldl (pollTurn cfg) w).recorded,
      SavedThisPoll (pollSave atRisk (turns.foldl (pollTurn cfg) w)) r.1 := by
  have hstart : RecordedInState w := by simp [RecordedInState, h]
  exact GuardedRuns.foldl_invariant (recordedInState_turn cfg) hstart turns

section Loop

variable {cfg : Config} (atRisk : Nat) (turns : List Turn) {w : World}

theorem pollKeepsRecords_of_loki (hloki : lokiAccepts cfg = true) (hpatched : w.patched = [])
    (hrecorded : w.recorded = []) :
    PollKeepsRecords (pollSave atRisk (turns.foldl (pollTurn cfg) w)) := by
  have hsaved := recorded_saved_of_turns cfg atRisk turns w hrecorded
  have hstart : PatchedRecorded w := by simp [PatchedRecorded, hpatched]
  have hloop : PatchedRecorded (turns.foldl (pollTurn cfg) w) :=
    GuardedRuns.foldl_invariant (patchedRecorded_turn hloki) hstart turns
  refine ⟨?_, hsaved⟩
  intro node hnode
  obtain ⟨time, htime⟩ := hloop node hnode
  exact hsaved (node, time) htime

theorem pollKeepsRecords_of_dryRun (hdry : cfg.dryRun = true) (hpatched : w.patched = [])
    (hrecorded : w.recorded = []) :
    PollKeepsRecords (pollSave atRisk (turns.foldl (pollTurn cfg) w)) := by
  have hnone : (pollSave atRisk (turns.foldl (pollTurn cfg) w)).patched = [] :=
    turns_dry hdry turns w hpatched
  refine ⟨?_, recorded_saved_of_turns cfg atRisk turns w hrecorded⟩
  intro node hnode
  rw [hnone] at hnode
  cases hnode

/-- Without a scheme in the URL of the push, a live poll loses whatever it patches. -/
theorem pollKeepsRecords_live_iff (hloki : lokiAccepts cfg = false) (hdry : cfg.dryRun = false)
    (hpatched : w.patched = []) (hrecorded : w.recorded = []) :
    PollKeepsRecords (pollSave atRisk (turns.foldl (pollTurn cfg) w)) ↔
      ∀ t ∈ turns, acts cfg w.state t = true → bothPatched cfg t.answers = false := by
  obtain ⟨hrec, hpat⟩ := turns_without_loki hloki hdry turns w
  rw [hrecorded] at hrec
  rw [hpatched, List.nil_append] at hpat
  have hunsaved : ∀ node,
      ¬ SavedThisPoll (pollSave atRisk (turns.foldl (pollTurn cfg) w)) node := by
    intro node hsaved
    obtain ⟨time, entry, hmem, -⟩ := hsaved
    have hnil : (node, time) ∈ (turns.foldl (pollTurn cfg) w).recorded := hmem
    rw [hrec] at hnil
    cases hnil
  constructor
  · intro h t ht hacts
    by_contra hboth
    rw [Bool.not_eq_false] at hboth
    have hmem : t.node ∈ (turns.foldl (pollTurn cfg) w).patched := by
      rw [hpat]
      apply List.mem_map_of_mem
      simp [ht, hacts, hboth]
    exact hunsaved t.node (h.patched_saved t.node hmem)
  · intro h
    have hnone : (turns.foldl (pollTurn cfg) w).patched = [] := by
      rw [hpat, List.map_eq_nil_iff, List.filter_eq_nil_iff]
      intro t ht
      cases hacts : acts cfg w.state t with
      | false => simp
      | true => simp [h t ht hacts]
    refine ⟨?_, recorded_saved_of_turns cfg atRisk turns w hrecorded⟩
    intro node hnode
    have hnil : node ∈ (turns.foldl (pollTurn cfg) w).patched := hnode
    rw [hnone] at hnil
    cases hnil

end Loop

end FaultOracle.Remediation
