import Mathlib.Data.List.Induction
import FaultOracle.AerReaders
import FaultOracle.CsvReader
import FaultOracle.GuardedRuns

/-!
# The IPMI SEL poller

`bmc/ipmi_sel_poller.py`: each run asks the BMC of each node for its event log, reports the
records with an id above the last one it has seen, and keeps the last ids in a state file.

`each_record_once` says that over all runs each record of a log is reported once, whichever polls
fail, and that no last id goes back.
-/

namespace FaultOracle.Bmc

open BacktrackingRegex GuardedRuns InsertionDict PythonFloats
open FaultOracle.Trace (CharTables readlines)
open FaultOracle.Aer (pythonInt)
open FaultOracle.Remediation (isPySpace strip)

abbrev Text := List Char

/-! ## The listing -/

/-- A date and a time of day, as `strptime` reads them. -/
structure CivilTime where
  year : Nat
  month : Nat
  day : Nat
  hour : Nat
  minute : Nat
  second : Nat
deriving DecidableEq, Repr

/-- The days of a month. -/
def daysIn (year month : Nat) : Nat :=
  if month = 2 then
    if year % 4 = 0 ∧ (year % 100 ≠ 0 ∨ year % 400 = 0) then 29 else 28
  else if month = 4 ∨ month = 6 ∨ month = 9 ∨ month = 11 then 30
  else 31

/-- What `datetime` takes. -/
def CivilTime.valid (t : CivilTime) : Bool :=
  1 ≤ t.year && 1 ≤ t.day && t.day ≤ daysIn t.year t.month && t.second ≤ 59

/-- A record of the listing. -/
structure SelEvent where
  recordId : Int
  timestamp : PyFloat
  sensorName : Text
  eventDescription : Text
  eventDirection : Text
  severityHint : Text
deriving DecidableEq, Repr

/-- What the interpreter knows of its surroundings: the tables of the Unicode database and, for
a valid date and time, its Unix time in the local time zone.  `none` where `timestamp()` finds
none and raises a `ValueError`. -/
structure Interpreter where
  tables : CharTables
  localTime : CivilTime → Option PyFloat

section Listing

open Re

variable (I : Interpreter)

/-- A hexadecimal digit. -/
def hexDigit (U : CharTables) (c : Char) : Option Nat :=
  if U.isDigit c then some (U.digitValue c)
  else if c.isAlpha && c.toLower.toNat ≤ 'f'.toNat then some (c.toLower.toNat - 'a'.toNat + 10)
  else none

/-- `int(word, 16)`, for a word which begins with `0x`. -/
def pythonHex (U : CharTables) (word : Text) : Option Int :=
  let digits := word.drop 2
  let groups := (if digits.head? = some '_' then digits.drop 1 else digits).splitOn '_'
  if groups.any List.isEmpty then none
  else (groups.flatten.mapM (hexDigit U)).map fun values =>
    ((values.foldl (fun n value => 16 * n + value) 0 : Nat) : Int)

/-- The id of a record; `none` where `int` raises. -/
def recordIdOf (cell : Text) : Option Int :=
  let word := strip cell
  if "0x".toList <+: word then pythonHex I.tables word else pythonInt I.tables word

def among (s : String) : Re := one fun c => s.toList.contains c

/-- `%m/%d/%Y %H:%M:%S`, as `strptime` makes a pattern of it. -/
def reSelTime (U : CharTables) : Re :=
  group 1 (alt (lit "1".toList ++ among "012") (alt (lit "0".toList ++ among "123456789")
    (among "123456789"))) ++ lit "/".toList ++
  group 2 (alt (lit "3".toList ++ among "01") (alt (among "12" ++ one U.isDigit)
    (alt (lit "0".toList ++ among "123456789") (alt (among "123456789")
      (lit " ".toList ++ among "123456789"))))) ++ lit "/".toList ++
  group 3 (times 4 (one U.isDigit)) ++ plus isPySpace ++
  group 4 (alt (lit "2".toList ++ among "0123") (alt (among "01" ++ one U.isDigit)
    (one U.isDigit))) ++ lit ":".toList ++
  group 5 (alt (among "012345" ++ one U.isDigit) (one U.isDigit)) ++ lit ":".toList ++
  group 6 (alt (lit "6".toList ++ among "01") (alt (among "012345" ++ one U.isDigit)
    (one U.isDigit)))

/-- `strptime(text, "%m/%d/%Y %H:%M:%S")`; `none` where it raises a `ValueError`. -/
def strptime (U : CharTables) (text : Text) : Option CivilTime := do
  let m ← (reSelTime U).matchStart text
  let number := fun n => U.decimal (strip ((m.groups n).getD []))
  let t : CivilTime := ⟨number 3, number 1, number 2, number 4, number 5, number 6⟩
  if m.post = [] ∧ t.valid then some t else none

/-- The timestamp of a record, `0.0` where it cannot be read. -/
def timestampOf (cell : Text) : PyFloat :=
  ((strptime I.tables (strip cell)).bind I.localTime).getD (.fin 0)

/-- The record of a row; `none` where the row is skipped. -/
def selEvent : List Text → Option SelEvent
  | id :: time :: name :: description :: direction :: hint :: _ =>
      (recordIdOf I id).map fun recordId =>
        ⟨recordId, timestampOf I time, strip name, strip description, strip direction, strip hint⟩
  | _ => none

/-- `parse_sel_csv`; `none` where the reader of the rows raises `csv.Error`. -/
def parseSelCsv (raw : Text) : Option (List SelEvent) :=
  (CsvReader.rows (readlines raw)).map fun rows => rows.filterMap (selEvent I)

end Listing

/-! ## One node -/

/-- An entry of `BMC_TARGETS`: a dictionary of strings. -/
structure Target where
  node : Option Text
  ip : Option Text
  user : Option Text
  pass : Option Text

/-- What `run_ipmitool_sel` returns: the text, or an error. -/
inductive IpmiAnswer
  | output (stdout : Text)
  | failure (error : Text)
deriving DecidableEq, Repr

/-- The result of a poll of one node. -/
structure NodeResult where
  node : Text
  up : Bool
  error : Option Text
  newEvents : List SelEvent
  lastRecordId : Int
  lastEventTs : Option PyFloat
deriving DecidableEq, Repr

/-- `max` of the elements behind the first. -/
def maxFrom {α : Type} (gt : α → α → Bool) (first : α) (rest : List α) : α :=
  rest.foldl (fun m x => if gt x m then x else m) first

def maxTimestamp : List SelEvent → Option PyFloat
  | [] => none
  | e :: rest => some (maxFrom PyFloat.gt e.timestamp (rest.map SelEvent.timestamp))

/-- The largest id, or the one before where there is no record. -/
def maxRecordId (lastRecordId : Int) : List SelEvent → Int
  | [] => lastRecordId
  | e :: rest => (rest.map SelEvent.recordId).foldl max e.recordId

def NodeResult.down (node : Text) (error : Text) (lastRecordId : Int) : NodeResult :=
  ⟨node, false, some error, [], lastRecordId, none⟩

/-- The text which is parsed, or the error which is reported.  An error without a text passes
for an answer without one. -/
def IpmiAnswer.raw : IpmiAnswer → Except Text Text
  | .output stdout => .ok stdout
  | .failure error => if error = [] then .ok [] else .error error

section Poller

variable (I : Interpreter)

/-- `collect_node_sel`; `none` where it raises. -/
def collectNodeSel (target : Target) (lastRecordId : Int) (answer : IpmiAnswer) :
    Option NodeResult := do
  let node ← target.node
  let _ip ← target.ip
  let _user ← target.user
  let _pass ← target.pass
  match answer.raw with
  | .error error => return .down node error lastRecordId
  | .ok raw =>
      let allEvents ← parseSelCsv I raw
      let newEvents := allEvents.filter fun e => decide (lastRecordId < e.recordId)
      return ⟨node, true, none, newEvents, maxRecordId lastRecordId newEvents,
        maxTimestamp allEvents⟩

/-! ## One run -/

/-- What a run of the program finds around it: `shutil.which("ipmitool")`, the targets, and what
the BMC of each answers. -/
structure Surroundings where
  ipmitoolPresent : Bool
  targets : List (Target × IpmiAnswer)

/-- The variables of `main`. -/
structure Loop where
  state : List (Text × Int)
  results : List NodeResult
  pollErrors : List (Text × Nat)

/-- The body of the loop; `none` where it raises. -/
def Loop.target (present : Bool) (l : Loop) (target : Target) (answer : IpmiAnswer) :
    Option Loop :=
  let node := target.node.getD "unknown".toList
  let lastId := (l.state.lookup node).getD 0
  if present then
    (collectNodeSel I target lastId answer).map fun result =>
      if result.up then
        { state := setItem node result.lastRecordId l.state
          results := l.results ++ [result]
          pollErrors := setItem node ((l.pollErrors.lookup node).getD 0) l.pollErrors }
      else
        { l with
          results := l.results ++ [result]
          pollErrors := bump l.pollErrors node }
  else
    some { l with
      results := l.results ++ [.down node "ipmitool not found".toList lastId]
      pollErrors := bump l.pollErrors node }

/-- The loop of `main`. -/
def Loop.targets (present : Bool) : Loop → List (Target × IpmiAnswer) → Option Loop
  | l, [] => some l
  | l, (target, answer) :: rest =>
      match l.target I present target answer with
      | none => none
      | some l => Loop.targets present l rest

/-- The state file: the dictionary which is in it, or none where it is absent or corrupt. -/
abbrev StateFile := Option (List (Text × Int))

/-- `load_state`. -/
def loadState (file : StateFile) : List (Text × Int) := file.getD []

/-- A run of `main` which does not raise: what it reports, and the state file behind it. -/
def main (file : StateFile) (env : Surroundings) : Option (Loop × StateFile) :=
  (Loop.targets I env.ipmitoolPresent ⟨loadState file, [], []⟩ env.targets).map fun l =>
    (l, if l.results.any NodeResult.up then some l.state else file)

end Poller

/-! ## Runs -/

/-- The state file and the polls which have been reported, over all runs. -/
structure System where
  file : StateFile
  polls : List NodeResult

/-- One more run of the program.  Where it raises it has reported and saved nothing. -/
def System.next (I : Interpreter) (s : System) (env : Surroundings) : System :=
  match main I s.file env with
  | none => s
  | some (l, file) => ⟨file, s.polls ++ l.results⟩

/-- All runs, from no state file on. -/
def afterRuns (I : Interpreter) (run : List Surroundings) : System :=
  run.foldl (System.next I) ⟨none, []⟩

/-- Ids are positive and increase along a log. -/
structure Increasing (log : List SelEvent) : Prop where
  pairwise : log.Pairwise fun a b => a.recordId < b.recordId
  positive : ∀ e ∈ log, 0 < e.recordId

/-- The BMC of this target answers with these records. -/
structure Surroundings.Answers (I : Interpreter) (env : Surroundings) (node : Text)
    (events : List SelEvent) : Prop where
  present : env.ipmitoolPresent = true
  polled : ∃ target answer raw, (target, answer) ∈ env.targets ∧ target.node = some node ∧
    answer.raw = .ok raw ∧ parseSelCsv I raw = some events

/-- What is listed of each node is a beginning of its log. -/
def Surroundings.ReadsFrom (I : Interpreter) (logs : Text → List SelEvent) (env : Surroundings) :
    Prop :=
  ∀ node events, env.Answers I node events → events <+: logs node

/-- A poll of the node in which the record is new. -/
def NodeResult.tells (node : Text) (e : SelEvent) (r : NodeResult) : Bool :=
  decide (r.node = node) && r.newEvents.contains e

section Proofs

variable {I : Interpreter} {l l' : Loop} {target : Target} {answer : IpmiAnswer}
  {present : Bool} {node : Text} {e : SelEvent} {events : List SelEvent}

/-- What a poll of one node has found. -/
theorem collectNodeSel_eq {last : Int} {r : NodeResult}
    (h : collectNodeSel I target last answer = some r) :
    ∃ node, target.node = some node ∧
      ((∃ error, answer.raw = .error error ∧ r = .down node error last) ∨
        ∃ raw events, answer.raw = .ok raw ∧ parseSelCsv I raw = some events ∧
          let new := events.filter fun e => decide (last < e.recordId)
          r = ⟨node, true, none, new, maxRecordId last new, maxTimestamp events⟩) := by
  simp only [collectNodeSel, Option.bind_eq_bind, Option.bind_eq_some_iff] at h
  obtain ⟨node, hnode, _, _, _, _, _, _, h⟩ := h
  refine ⟨node, hnode, ?_⟩
  cases hraw : answer.raw with
  | error error =>
      rw [hraw] at h
      exact Or.inl ⟨error, rfl, (Option.some.inj h).symm⟩
  | ok raw =>
      rw [hraw] at h
      simp only [Option.bind_eq_some_iff] at h
      obtain ⟨events, hevents, h⟩ := h
      exact Or.inr ⟨raw, events, rfl, hevents, (Option.some.inj h).symm⟩

/-- What a pass through the loop of `main` has done. -/
theorem target_cases (h : l.target I present target answer = some l') :
    (∃ r : NodeResult, l'.results = l.results ++ [r] ∧ r.up = false ∧ r.newEvents = [] ∧
      l'.state = l.state ∧ (present = false ∨ ∀ raw, answer.raw ≠ .ok raw)) ∨
    ∃ node raw events, present = true ∧ target.node = some node ∧ answer.raw = .ok raw ∧
      parseSelCsv I raw = some events ∧
      let last := (l.state.lookup node).getD 0
      let new := events.filter fun e => decide (last < e.recordId)
      l'.results = l.results ++ [⟨node, true, none, new, maxRecordId last new,
        maxTimestamp events⟩] ∧
      l'.state = setItem node (maxRecordId last new) l.state := by
  cases present with
  | false =>
      obtain rfl := Option.some.inj h
      exact Or.inl ⟨_, rfl, rfl, rfl, rfl, Or.inl rfl⟩
  | true =>
      obtain ⟨r, hr, rfl⟩ := Option.map_eq_some_iff.mp h
      obtain ⟨node, hnode, hcase⟩ := collectNodeSel_eq hr
      rcases hcase with ⟨error, hraw, rfl⟩ | ⟨raw, events, hraw, hevents, rfl⟩
      · refine Or.inl ⟨_, rfl, rfl, rfl, rfl, Or.inr fun raw h => ?_⟩
        rw [hraw] at h
        cases h
      · refine Or.inr ⟨node, raw, events, rfl, hnode, hraw, hevents, ?_⟩
        simp only [hnode, Option.getD_some, if_true, and_self]

/-! ### One poll -/

/-- The running maximum is one of the values and no less than any. -/
theorem foldl_max_spec (m : Int) (rest : List Int) :
    (∀ x ∈ m :: rest, x ≤ rest.foldl max m) ∧ rest.foldl max m ∈ m :: rest := by
  induction rest generalizing m with
  | nil => simp
  | cons x rest ih =>
      obtain ⟨hall, hmem⟩ := ih (max m x)
      have htop := hall (max m x) (.head _)
      constructor
      · intro y hy
        rw [List.foldl_cons]
        rcases List.mem_cons.mp hy with rfl | hy
        · exact (le_max_left _ _).trans htop
        · rcases List.mem_cons.mp hy with rfl | hy
          · exact (le_max_right _ _).trans htop
          · exact hall y (.tail _ hy)
      · rw [List.foldl_cons]
        rcases List.mem_cons.mp hmem with heq | hmem
        · rcases max_choice m x with hmax | hmax <;> rw [hmax] at heq <;> rw [hmax, heq] <;> simp
        · exact .tail _ (.tail _ hmem)

/-- The new record ID is the highest of the new events, or the last one. -/
theorem maxRecordId_spec (last : Int) (new : List SelEvent) :
    (∀ e ∈ new, e.recordId ≤ maxRecordId last new) ∧
      (new = [] ∧ maxRecordId last new = last ∨ ∃ e ∈ new, maxRecordId last new = e.recordId) := by
  cases new with
  | nil => exact ⟨List.forall_mem_nil _, Or.inl ⟨rfl, rfl⟩⟩
  | cons first rest =>
      obtain ⟨hall, hmem⟩ := foldl_max_spec first.recordId (rest.map SelEvent.recordId)
      rw [← List.map_cons] at hall hmem
      obtain ⟨top, htop, heq⟩ := List.mem_map.mp hmem
      exact ⟨fun e he => hall _ (List.mem_map_of_mem he), Or.inr ⟨top, htop, heq.symm⟩⟩

/-- Below a record of a beginning of a log, the beginning has all records. -/
theorem mem_of_prefix {log : List SelEvent} (hlog : Increasing log) (hbegin : events <+: log)
    {top : SelEvent} (htop : top ∈ events) (he : e ∈ log) (hle : e.recordId ≤ top.recordId) :
    e ∈ events := by
  obtain ⟨rest, rfl⟩ := hbegin
  rcases List.mem_append.mp he with he | he
  · exact he
  · have hlt := (List.pairwise_append.mp hlog.pairwise).2.2 top htop e he
    omega

/-- A poll takes the last id past exactly the records which are new in it. -/
theorem le_maxRecordId_iff {log : List SelEvent} (hlog : Increasing log)
    (hbegin : events <+: log) (he : e ∈ log) (last : Int) :
    e.recordId ≤ maxRecordId last (events.filter fun e => decide (last < e.recordId)) ↔
      e.recordId ≤ last ∨ e ∈ events.filter fun e => decide (last < e.recordId) := by
  obtain ⟨hall, hmax⟩ := maxRecordId_spec last (events.filter fun e => decide (last < e.recordId))
  constructor
  · intro h
    rcases hmax with ⟨_, hlast⟩ | ⟨top, htop, hmax⟩
    · exact Or.inl (h.trans hlast.le)
    · have hmem := mem_of_prefix hlog hbegin (List.mem_filter.mp htop).1 he (hmax ▸ h)
      by_cases hold : e.recordId ≤ last
      · exact Or.inl hold
      · exact Or.inr (List.mem_filter.mpr ⟨hmem, decide_eq_true (not_le.mp hold)⟩)
  · intro h
    rcases h with hold | hnew
    · rcases hmax with ⟨_, hlast⟩ | ⟨top, htop, hmax⟩
      · exact hold.trans hlast.ge
      · have hlt := of_decide_eq_true (List.mem_filter.mp htop).2
        omega
    · exact hall e hnew

/-! ### The invariant -/

/-- Of each log, the polls have told exactly the records up to the last id, each of them once. -/
def Told (logs : Text → List SelEvent) (state : List (Text × Int)) (polls : List NodeResult) :
    Prop :=
  ∀ node, ∀ e ∈ logs node, polls.countP (NodeResult.tells node e) =
    if e.recordId ≤ (state.lookup node).getD 0 then 1 else 0

/-- No last id goes back. -/
def Onward (state state' : List (Text × Int)) : Prop :=
  ∀ node id, state.lookup node = some id → ∃ id', state'.lookup node = some id' ∧ id ≤ id'

/-- The last id of the node has reached the record. -/
def Reached (state : List (Text × Int)) (node : Text) (e : SelEvent) : Prop :=
  ∃ id, state.lookup node = some id ∧ e.recordId ≤ id

theorem Onward.refl (state : List (Text × Int)) : Onward state state :=
  fun _ id h => ⟨id, h, le_refl id⟩

/-- Going on composes. -/
theorem Onward.trans {a b c : List (Text × Int)} (hab : Onward a b) (hbc : Onward b c) :
    Onward a c := by
  intro node id h
  obtain ⟨id', h', hle⟩ := hab node id h
  obtain ⟨id'', h'', hle'⟩ := hbc node id' h'
  exact ⟨id'', h'', hle.trans hle'⟩

/-- What was reached stays reached. -/
theorem Reached.onward {a b : List (Text × Int)} (h : Reached a node e) (hab : Onward a b) :
    Reached b node e := by
  obtain ⟨id, hid, hle⟩ := h
  obtain ⟨id', hid', hle'⟩ := hab node id hid
  exact ⟨id', hid', hle.trans hle'⟩

/-- The new record ID is no less than the last one. -/
theorem le_maxRecordId (last : Int) (events : List SelEvent) :
    last ≤ maxRecordId last (events.filter fun e => decide (last < e.recordId)) := by
  rcases (maxRecordId_spec last (events.filter fun e => decide (last < e.recordId))).2 with
    ⟨_, hlast⟩ | ⟨top, htop, hmax⟩
  · exact hlast.ge
  · rw [hmax]
    exact (of_decide_eq_true (List.mem_filter.mp htop).2).le

/-- A pass through the loop takes no last id back. -/
theorem onward_target (h : l.target I present target answer = some l') :
    Onward l.state l'.state := by
  rcases target_cases h with ⟨_, _, _, _, hstate, _⟩ | ⟨node, raw, events, _, _, _, _, _, hstate⟩
  · rw [hstate]
    exact Onward.refl _
  · intro other id hid
    rw [hstate]
    by_cases hother : other = node
    · subst hother
      refine ⟨_, lookup_setItem_self _ _ _, ?_⟩
      have hle := le_maxRecordId ((l.state.lookup other).getD 0) events
      rwa [hid, Option.getD_some] at hle ⊢
    · exact ⟨id, (lookup_setItem_ne hother _ _).trans hid, le_refl id⟩

/-- A pass through the loop tells what it takes the last id past. -/
theorem told_target {logs : Text → List SelEvent} (hlogs : ∀ node, Increasing (logs node))
    (h : l.target I present target answer = some l')
    (hreads : ∀ node raw events, present = true → target.node = some node →
      answer.raw = .ok raw → parseSelCsv I raw = some events → events <+: logs node)
    {before : List NodeResult} (htold : Told logs l.state (before ++ l.results)) :
    Told logs l'.state (before ++ l'.results) := by
  rcases target_cases h with ⟨r, hresults, _, hnew, hstate, _⟩ |
    ⟨node, raw, events, hpresent, hnode, hraw, hevents, hresults, hstate⟩
  · intro other e he
    rw [hresults, hstate, ← List.append_assoc, List.countP_append, htold other e he]
    simp [NodeResult.tells, hnew]
  · have hbegin := hreads node raw events hpresent hnode hraw hevents
    intro other e he
    rw [hresults, hstate, ← List.append_assoc, List.countP_append, htold other e he,
      List.countP_singleton]
    by_cases hother : other = node
    · subst hother
      have hiff := le_maxRecordId_iff (hlogs other) hbegin he ((l.state.lookup other).getD 0)
      rw [lookup_setItem_self, Option.getD_some]
      by_cases hold : e.recordId ≤ (l.state.lookup other).getD 0
      · have hnot : e ∉ events.filter fun e =>
            decide ((l.state.lookup other).getD 0 < e.recordId) := fun hmem =>
          absurd (of_decide_eq_true (List.mem_filter.mp hmem).2) (not_lt.mpr hold)
        rw [if_pos hold, if_pos (hiff.mpr (Or.inl hold)), if_neg]
        simpa [NodeResult.tells] using hnot
      · by_cases hnew : e ∈ events.filter fun e =>
            decide ((l.state.lookup other).getD 0 < e.recordId)
        · rw [if_neg hold, if_pos (hiff.mpr (Or.inr hnew)), if_pos]
          simpa [NodeResult.tells] using hnew
        · rw [if_neg hold, if_neg fun h => (hiff.mp h).elim hold hnew, if_neg]
          simpa [NodeResult.tells] using hnew
    · have hskip : NodeResult.tells other e ⟨node, true, none,
          events.filter fun e => decide ((l.state.lookup node).getD 0 < e.recordId),
          maxRecordId ((l.state.lookup node).getD 0)
            (events.filter fun e => decide ((l.state.lookup node).getD 0 < e.recordId)),
          maxTimestamp events⟩ = false := by
        simp [NodeResult.tells, Ne.symm hother]
      rw [lookup_setItem_ne hother, hskip]
      rfl

/-! ### One run -/

/-- What the loop of a run has done, whatever the run begins with. -/
structure LoopDone (I : Interpreter) (env : List (Target × IpmiAnswer)) (present : Bool)
    (l l' : Loop) : Prop where
  onward : Onward l.state l'.state
  told : ∀ logs : Text → List SelEvent, (∀ node, Increasing (logs node)) →
    (∀ t ∈ env, ∀ node raw events, present = true → t.1.node = some node →
      t.2.raw = .ok raw → parseSelCsv I raw = some events → events <+: logs node) →
    ∀ before, Told logs l.state (before ++ l.results) → Told logs l'.state (before ++ l'.results)
  reached : present = true → ∀ t ∈ env, ∀ node raw events, t.1.node = some node →
    t.2.raw = .ok raw → parseSelCsv I raw = some events → ∀ e ∈ events, Reached l'.state node e
  unchanged : l'.results.any NodeResult.up = false → l'.state = l.state
  appended : l.results <+: l'.results

/-- A record which is listed is reached. -/
theorem reached_target (h : l.target I true target answer = some l') {raw : Text}
    (hnode : target.node = some node) (hraw : answer.raw = .ok raw)
    (hevents : parseSelCsv I raw = some events) (he : e ∈ events) : Reached l'.state node e := by
  rcases target_cases h with ⟨_, _, _, _, _, hdown⟩ |
    ⟨node', raw', events', _, hnode', hraw', hevents', _, hstate⟩
  · rcases hdown with hdown | hdown
    · cases hdown
    · exact absurd hraw (hdown raw)
  · obtain rfl := Option.some.inj (hnode'.symm.trans hnode)
    obtain rfl := Except.ok.inj (hraw'.symm.trans hraw)
    obtain rfl := Option.some.inj (hevents'.symm.trans hevents)
    refine ⟨_, hstate ▸ lookup_setItem_self _ _ _, ?_⟩
    by_cases hold : e.recordId ≤ (l.state.lookup node').getD 0
    · exact hold.trans (le_maxRecordId _ _)
    · exact (maxRecordId_spec _ _).1 e (List.mem_filter.mpr ⟨he, decide_eq_true (not_le.mp hold)⟩)

/-- A target which is not polled leaves the state as it was. -/
theorem unchanged_target (h : l.target I present target answer = some l') :
    l.results <+: l'.results ∧
      (l'.results.any NodeResult.up = false → l'.state = l.state) := by
  rcases target_cases h with ⟨r, hresults, _, _, hstate, _⟩ | ⟨_, _, _, _, _, _, _, hresults, _⟩
  · exact ⟨⟨_, hresults.symm⟩, fun _ => hstate⟩
  · refine ⟨⟨_, hresults.symm⟩, fun hnone => ?_⟩
    rw [hresults, List.any_append] at hnone
    simp at hnone

/-- What the loop over the targets does. -/
theorem loopDone_targets {env : List (Target × IpmiAnswer)}
    (h : Loop.targets I present l env = some l') : LoopDone I env present l l' := by
  induction env generalizing l with
  | nil =>
      obtain rfl := Option.some.inj h
      exact ⟨Onward.refl _, fun _ _ _ _ h => h, fun _ _ ht => absurd ht List.not_mem_nil,
        fun _ => rfl, List.prefix_rfl⟩
  | cons t env ih =>
      obtain ⟨target, answer⟩ := t
      rw [Loop.targets] at h
      split at h
      · cases h
      · rename_i middle hmiddle
        have hrest := ih h
        refine ⟨(onward_target hmiddle).trans hrest.onward, ?_, ?_, ?_, ?_⟩
        · intro logs hlogs hreads before htold
          refine hrest.told logs hlogs (fun t ht => hreads t (.tail _ ht)) before ?_
          exact told_target hlogs hmiddle (hreads _ (.head _)) htold
        · intro hpresent t ht node raw events hnode hraw hevents e he
          rcases List.mem_cons.mp ht with rfl | ht
          · subst hpresent
            exact (reached_target hmiddle hnode hraw hevents he).onward hrest.onward
          · exact hrest.reached hpresent t ht node raw events hnode hraw hevents e he
        · intro hnone
          have hmid : middle.results.any NodeResult.up = false := by
            obtain ⟨more, hmore⟩ := hrest.appended
            rw [← hmore, List.any_append, Bool.or_eq_false_iff] at hnone
            exact hnone.1
          rw [hrest.unchanged hnone, (unchanged_target hmiddle).2 hmid]
        · exact (unchanged_target hmiddle).1.trans hrest.appended

/-- The dictionary which the next run loads is that of the loop. -/
theorem loadState_main {file file' : StateFile} {env : Surroundings}
    (h : main I file env = some (l, file')) :
    loadState file' = l.state ∧
      LoopDone I env.targets env.ipmitoolPresent ⟨loadState file, [], []⟩ l := by
  obtain ⟨loop, hloop, heq⟩ := Option.map_eq_some_iff.mp h
  obtain ⟨rfl, rfl⟩ := Prod.mk.inj heq
  have hdone := loopDone_targets hloop
  refine ⟨?_, hdone⟩
  split
  · rfl
  · rename_i hnone
    exact (hdone.unchanged (Bool.not_eq_true _ ▸ hnone)).symm

/-! ### All runs -/

variable {s : System} {env : Surroundings}

/-- A run of the poller goes on from its state file. -/
theorem onward_next (I : Interpreter) (s : System) (env : Surroundings) :
    Onward (loadState s.file) (loadState (s.next I env).file) := by
  rw [System.next]
  split
  · exact Onward.refl _
  · rename_i l file hmain
    obtain ⟨hload, hdone⟩ := loadState_main hmain
    rw [hload]
    exact hdone.onward

/-- Runs of the poller go on from the state file. -/
theorem onward_foldl (I : Interpreter) (s : System) (run : List Surroundings) :
    Onward (loadState s.file) (loadState (run.foldl (System.next I) s).file) := by
  induction run generalizing s with
  | nil => exact Onward.refl _
  | cons env run ih => exact (onward_next I s env).trans (ih _)

/-- One more run keeps what has been told. -/
theorem told_next {logs : Text → List SelEvent} (hlogs : ∀ node, Increasing (logs node))
    (hreads : env.ReadsFrom I logs) (htold : Told logs (loadState s.file) s.polls) :
    Told logs (loadState (s.next I env).file) (s.next I env).polls := by
  rw [System.next]
  split
  · exact htold
  · rename_i l file hmain
    obtain ⟨hload, hdone⟩ := loadState_main hmain
    rw [hload]
    refine hdone.told logs hlogs ?_ s.polls (by simpa using htold)
    intro t ht node raw events hpresent hnode hraw hevents
    exact hreads node events ⟨hpresent, t.1, t.2, raw, ht, hnode, hraw, hevents⟩

/-- **The invariant of all runs**: what has been told are the records up to the last ids. -/
theorem told_afterRuns {logs : Text → List SelEvent} (hlogs : ∀ node, Increasing (logs node))
    {run : List Surroundings} (hrun : ∀ env ∈ run, env.ReadsFrom I logs) :
    Told logs (loadState (afterRuns I run).file) (afterRuns I run).polls := by
  induction run using List.reverseRecOn with
  | nil =>
      intro node e he
      have hpos := (hlogs node).positive e he
      exact (if_neg (not_le.mpr hpos)).symm
  | append_singleton run env ih =>
      rw [afterRuns, List.foldl_append]
      exact told_next hlogs (hrun env (by simp)) (ih fun env henv => hrun env (by simp [henv]))

/-- What a run lists is behind its last ids. -/
theorem reached_next (hmain : (main I s.file env).isSome = true)
    (hanswers : env.Answers I node events) (he : e ∈ events) :
    Reached (loadState (s.next I env).file) node e := by
  obtain ⟨⟨l, file⟩, hmain⟩ := Option.isSome_iff_exists.mp hmain
  obtain ⟨hload, hdone⟩ := loadState_main hmain
  obtain ⟨hpresent, target, answer, raw, ht, hnode, hraw, hevents⟩ := hanswers
  rw [System.next, hmain]
  show Reached (loadState file) node e
  rw [hload]
  exact hdone.reached hpresent _ ht node raw events hnode hraw hevents e he

end Proofs

/-- **Each record is told once.**  Let the BMCs answer with beginnings of logs whose ids are
positive and increase, and let any polls fail.  Each record which a run lists is new in one poll
of its node over all runs, and no last id in the state file goes back. -/
theorem each_record_once (I : Interpreter) (logs : Text → List SelEvent)
    (hlogs : ∀ node, Increasing (logs node)) (run : List Surroundings)
    (hrun : ∀ env ∈ run, env.ReadsFrom I logs) :
    (∀ m ∈ moments run, (main I (afterRuns I m.1).file m.2.1).isSome = true →
      ∀ node events, m.2.1.Answers I node events → ∀ e ∈ events,
        (afterRuns I run).polls.countP (NodeResult.tells node e) = 1) ∧
    ∀ m ∈ moments run, Onward (loadState (afterRuns I m.1).file)
      (loadState (afterRuns I (m.1 ++ [m.2.1])).file) := by
  have hsplit : ∀ m ∈ moments run, afterRuns I run =
      m.2.2.foldl (System.next I) ((afterRuns I m.1).next I m.2.1) := by
    intro m hm
    rw [afterRuns, mem_moments.mp hm, List.foldl_append]
    rfl
  constructor
  · intro m hm hmain node events hanswers e he
    have hreached := (reached_next hmain hanswers he).onward
      (onward_foldl I ((afterRuns I m.1).next I m.2.1) m.2.2)
    rw [← hsplit m hm] at hreached
    obtain ⟨id, hid, hle⟩ := hreached
    have hmem : m.2.1 ∈ run := by
      rw [mem_moments.mp hm]
      simp
    have hlog : e ∈ logs node := (hrun _ hmem node events hanswers).subset he
    rw [told_afterRuns hlogs hrun node e hlog, hid]
    exact if_pos hle
  · intro m _
    have hnext : afterRuns I (m.1 ++ [m.2.1]) = (afterRuns I m.1).next I m.2.1 := by
      rw [afterRuns, List.foldl_append]
      rfl
    rw [hnext]
    exact onward_next I _ _

/-- What `ReadsFrom` asks, target for target. -/
theorem readsFrom_of_targets {I : Interpreter} {logs : Text → List SelEvent} {env : Surroundings}
    (h : ∀ t ∈ env.targets, ∀ node ∈ t.1.node, ∀ raw ∈ t.2.raw.toOption,
      ∀ events ∈ parseSelCsv I raw, events <+: logs node) : env.ReadsFrom I logs := by
  intro node events hanswers
  obtain ⟨_, target, answer, raw, ht, hnode, hraw, hevents⟩ := hanswers
  exact h _ ht node hnode raw (by rw [hraw]; rfl) events hevents

/-- An interpreter which knows no more than ASCII and no time zone. -/
def plainInterpreter : Interpreter := ⟨Trace.asciiTables, fun _ => none⟩

section Witness

def fanRecord : SelEvent :=
  ⟨1, .fin 0, "Fan 3".toList, "Lower Critical".toList, "Assert".toList, "critical".toList⟩

def memoryRecord : SelEvent :=
  ⟨18, .fin 0, "Memory A1".toList, "ECC, correctable".toList, "Assert".toList, []⟩

/-- The log of one node: two records. -/
def rackLog (node : Text) : List SelEvent :=
  if node = "rack-7".toList then [fanRecord, memoryRecord] else []

def rackTarget : Target := ⟨some "rack-7".toList, some [], some [], some []⟩

/-- Three runs: the first record is listed, the BMC does not answer, both are listed. -/
def rackRuns : List Surroundings :=
  [⟨true, [(rackTarget, .output "1,,Fan 3,Lower Critical,Assert,critical\n".toList)]⟩,
    ⟨true, [(rackTarget, .failure "timeout".toList)]⟩,
    ⟨true, [(rackTarget, .output ("1,,Fan 3,Lower Critical,Assert,critical\nbroken line\n" ++
      "0x12,,Memory A1,\"ECC, correctable\",Assert,\n").toList)]⟩]

/-- The record IDs of the rack's log increase. -/
theorem rackLog_increasing (node : Text) : Increasing (rackLog node) := by
  rw [rackLog]
  split
  · exact ⟨by decide, by decide⟩
  · exact ⟨List.Pairwise.nil, List.forall_mem_nil _⟩

/-- Over the rack's runs the memory record is told once. -/
theorem rackRuns_told :
    (afterRuns plainInterpreter rackRuns).polls.countP
      (NodeResult.tells "rack-7".toList memoryRecord) = 1 := by
  refine (each_record_once plainInterpreter rackLog rackLog_increasing rackRuns ?_).1
    (rackRuns.take 2, rackRuns[2], []) ?_ ?_ "rack-7".toList [fanRecord, memoryRecord] ?_
    memoryRecord (by simp)
  · intro env henv
    refine readsFrom_of_targets ?_
    revert env
    decide +kernel
  · exact mem_moments.mpr rfl
  · decide +kernel
  · exact ⟨rfl, rackTarget, _, _, .head _, rfl, rfl, by decide +kernel⟩

end Witness

end FaultOracle.Bmc
