import FaultOracle.JsonValues
import FaultOracle.RemediationState

/-!
# The remediation controller

`remediation/remediation-controller.py`: one poll asks Prometheus for the failure
probability of the nodes and remediates each one above the threshold which is not
in cooldown: it cordons the node, taints it, posts an Event, pushes a line to Loki
and records the action.  The poll works on its own copy of the state file, loaded
at its start and written back as a whole at its end.

Everything the outside world decides (the answers to the requests, the readings of
the clock) comes in with the turn of the loop to which it belongs.
-/

namespace FaultOracle.Remediation

open InsertionDict PythonFloats JsonValues

/-- The configuration, read from environment variables. -/
structure Config where
  cordonThreshold : ℚ
  cooldownHours : ℚ
  dryRun : Bool
  lokiUrl : String

/-- The values when no environment variable is set. -/
def defaultConfig : Config where
  cordonThreshold := 4 / 5
  cooldownHours := 4
  dryRun := false
  lokiUrl := ""

/-- The exceptions of the remediation path: the `RuntimeError` of `_request`, any
other failure of a request, and the `ValueError` of `urllib.request.Request`. -/
inductive PyError
  | runtimeError (message : String)
  | requestFailed
  | unknownUrlType
deriving DecidableEq, Repr

/-- How a request to the API server ends.  A connection may break before or after
the server has acted. -/
inductive Reply
  | ok
  | httpError (code : Nat) (body : String)
  | broken (applied : Bool)
deriving DecidableEq, Repr

/-- The server has carried the request out. -/
def Reply.applied : Reply → Bool
  | .ok => true
  | .httpError _ _ => false
  | .broken applied => applied

/-- What `KubeClient._request` raises. -/
def Reply.error (method path : String) : Reply → Option PyError
  | .ok => none
  | .httpError code body =>
      some (.runtimeError
        ("Kubernetes API " ++ method ++ " " ++ path ++ " -> HTTP " ++ toString code ++ ": " ++
          body))
  | .broken _ => some .requestFailed

/-- The core of the Event which `build_event` makes. -/
structure KubeEvent where
  name : String
  node : String
  message : String
  eventTime : ℚ
deriving DecidableEq, Repr

/-- The line which `push_loki` sends. -/
structure LokiLine where
  url : String
  node : String
  probability : PyFloat
  action : String
  dryRun : Bool
  threshold : ℚ
deriving DecidableEq, Repr

/-- The state file, the dictionary of the poll in progress, the node objects on the
API server, what was sent out, and the metrics.  The last two fields belong to the
model: the nodes whose two patches succeeded, and the remediations recorded with
their times. -/
structure World where
  file : StateFile
  state : State
  nodes : String → Json
  events : List KubeEvent
  lokiLines : List LokiLine
  counters : Samples String Nat
  gauges : Samples String ℚ
  patched : List String
  recorded : List (String × ℚ)

/-! ## Cooldown -/

/-- `_cooldown_active`. -/
def cooldownActive (cfg : Config) (state : State) (node : String) (now : ℚ) : Bool :=
  match state node with
  | none => false
  | some entry =>
      match entry.lastAction with
      | .blank => false
      | .malformed => false
      | .naive last => decide ((now - last) / 3600 < cfg.cooldownHours)
      | .aware last => decide ((now - last) / 3600 < cfg.cooldownHours)

/-- `_update_state_entry`. -/
def updateStateEntry (w : World) (node : String) (probability : PyFloat) (dryRun : Bool)
    (now : ℚ) : World :=
  { w with
    state := Function.update w.state node
      (some { lastAction := isoformat now, probability := probability, dryRun := dryRun })
    recorded := w.recorded ++ [(node, now)] }

/-! ## Requests to the API server -/

/-- `build_cordon_patch`. -/
def buildCordonPatch : Json := .obj [("spec", .obj [("unschedulable", .bool true)])]

def taintKey : String := "fault-resilience/predicted-failure"

/-- The one taint in the patch of `build_taint_patch`. -/
def predictedFailureTaint (threshold : ℚ) : Json :=
  .obj [("key", .str taintKey), ("effect", .str "NoSchedule"),
    ("value", .str ("P>" ++ percent threshold))]

/-- `build_taint_patch`. -/
def buildTaintPatch (threshold : ℚ) : Json :=
  .obj [("spec", .obj [("taints", .arr [predictedFailureTaint threshold])])]

/-- `patch_node`: the server merges the patch into the node object. -/
def patchNode (w : World) (reply : Reply) (node : String) (patch : Json) :
    World × Option PyError :=
  (if reply.applied then
      { w with nodes := Function.update w.nodes node (mergePatch patch (w.nodes node)) }
    else w,
    reply.error "PATCH" ("/api/v1/nodes/" ++ node))

/-- `build_event`, at the time `now`. -/
def buildEvent (cfg : Config) (node : String) (probability : PyFloat) (dryRun : Bool)
    (now : ℚ) : KubeEvent where
  name := "hw-fault-remediation-" ++ node ++ "-" ++ toString ⌊now⌋
  node := node
  message :=
    (if dryRun then "[DRY-RUN] " else "") ++ "Node " ++ node ++
      " cordoned: failure_probability_7d=" ++ probability.fixed 3 ++ " > threshold=" ++
      fixedFinite 3 cfg.cordonThreshold
  eventTime := now

/-- `create_event` inside the `try` of `remediate_node`: a failure is only logged. -/
def createEvent (w : World) (reply : Reply) (event : KubeEvent) : World :=
  if reply.applied then { w with events := w.events ++ [event] } else w

/-! ## Loki -/

/-- The characters which `str.strip` removes. -/
def isPySpace (c : Char) : Bool :=
  [0x09, 0x0a, 0x0b, 0x0c, 0x0d, 0x1c, 0x1d, 0x1e, 0x1f, 0x20, 0x85, 0xa0, 0x1680, 0x2028,
    0x2029, 0x202f, 0x205f, 0x3000].contains c.toNat ||
  (0x2000 ≤ c.toNat && c.toNat ≤ 0x200a)

/-- No ASCII character above the space is white space. -/
theorem isPySpace_of_graphic {c : Char} (hlow : 0x20 < c.toNat) (hhigh : c.toNat < 0x80) :
    isPySpace c = false := by
  rw [isPySpace, Bool.or_eq_false_iff]
  constructor
  · rw [List.contains_eq_any_beq, List.any_eq_false]
    intro k hk
    have hk' : k ≤ 0x20 ∨ 0x85 ≤ k := by
      simp only [List.mem_cons, List.not_mem_nil, or_false] at hk
      omega
    rw [beq_iff_eq]
    omega
  · simp only [Bool.and_eq_false_iff, decide_eq_false_iff_not]
    omega

def strip (s : List Char) : List Char :=
  ((s.dropWhile isPySpace).reverse.dropWhile isPySpace).reverse

/-- `LOKI_URL.rstrip("/")`. -/
def rstripSlash (s : List Char) : List Char := (s.reverse.dropWhile (· = '/')).reverse

/-- `urllib.parse.unwrap`. -/
def unwrap (url : List Char) : List Char :=
  let url := strip url
  let url :=
    if url.head? = some '<' ∧ url.getLast? = some '>' then strip (url.drop 1).dropLast else url
  if url.take 4 = ['U', 'R', 'L', ':'] then strip (url.drop 4) else url

/-- `urllib.parse._splittag`: what stands before the last `#`. -/
def splitTag (url : List Char) : List Char :=
  if '#' ∈ url then ((url.reverse.dropWhile (· ≠ '#')).drop 1).reverse else url

/-- `urllib.parse._splittype`: a scheme is what stands before a first `:`, if it is not
empty and has no `/`. -/
def splitType (url : List Char) : Option (List Char) :=
  let scheme := url.takeWhile (fun c => c ≠ '/' ∧ c ≠ ':')
  if scheme ≠ [] ∧ url[scheme.length]? = some ':' then some scheme else none

/-- The URL to which `push_loki` posts. -/
def lokiPushUrl (cfg : Config) : List Char :=
  rstripSlash cfg.lokiUrl.toList ++ "/loki/api/v1/push".toList

/-- `urllib.request.Request(url)` finds a scheme; without one it raises `ValueError`. -/
def requestHasType (url : List Char) : Bool := (splitType (splitTag (unwrap url))).isSome

/-- `push_loki`.  The request object is built before the `try`, and only what
`urlopen` raises is caught; `delivered` says whether the line got through. -/
def pushLoki (cfg : Config) (delivered : Bool) (w : World) (node : String)
    (probability : PyFloat) (action : String) (dryRun : Bool) : World × Option PyError :=
  if cfg.lokiUrl = "" then (w, none)
  else if requestHasType (lokiPushUrl cfg) = false then (w, some .unknownUrlType)
  else if delivered then
    ({ w with
        lokiLines := w.lokiLines ++
          [{ url := String.ofList (lokiPushUrl cfg), node := node, probability := probability,
             action := action, dryRun := dryRun, threshold := cfg.cordonThreshold }] }, none)
  else (w, none)

/-! ## One remediation -/

/-- What the world answers during one call of `remediate_node`: the three API
requests, the push to Loki, the time in the Event and the time recorded. -/
structure Answers where
  cordon : Reply
  taint : Reply
  event : Reply
  lokiDelivered : Bool
  eventAt : ℚ
  recordedAt : ℚ

/-- Every request succeeds, and the clock stands at `t`. -/
def allWell (t : ℚ) : Answers where
  cordon := .ok
  taint := .ok
  event := .ok
  lokiDelivered := true
  eventAt := t
  recordedAt := t

/-- The labels of `remediation_actions_total`. -/
def actionLabels (node : String) (dryRun : Bool) : List (String × String) :=
  [("action", "cordon"), ("node", node), ("dry_run", if dryRun then "true" else "false")]

/-- Record the action in the state and count it. -/
def recordAction (w : World) (node : String) (probability : PyFloat) (dryRun : Bool)
    (now : ℚ) : World :=
  let w := updateStateEntry w node probability dryRun now
  { w with
    counters := counterInc w.counters "remediation_actions_total" (actionLabels node dryRun) }

/-- `remediate_node`: the world it leaves, and the exception it raises. -/
def remediateNode (cfg : Config) (ans : Answers) (node : String) (probability : PyFloat)
    (w : World) : World × Option PyError :=
  if cfg.dryRun then
    pushLoki cfg ans.lokiDelivered (recordAction w node probability true ans.recordedAt)
      node probability "cordon" true
  else
    match patchNode w ans.cordon node buildCordonPatch with
    | (w, some err) => (w, some err)
    | (w, none) =>
        match patchNode w ans.taint node (buildTaintPatch cfg.cordonThreshold) with
        | (w, some err) => (w, some err)
        | (w, none) =>
            let w := { w with patched := w.patched ++ [node] }
            let w := createEvent w ans.event
              (buildEvent cfg node probability false ans.eventAt)
            match pushLoki cfg ans.lokiDelivered w node probability "cordon" false with
            | (w, some err) => (w, some err)
            | (w, none) => (recordAction w node probability false ans.recordedAt, none)

/-! ## One poll -/

/-- One turn of the loop of `poll_once`: a result of the query, and what the world
answers while the loop is at it. -/
structure Turn where
  node : String
  value : PyFloat
  checkedAt : ℚ
  answers : Answers

/-- A result whose remediation goes well, with the clock at `t`. -/
def turnAt (node : String) (value t : ℚ) : Turn where
  node := node
  value := .fin value
  checkedAt := t
  answers := allWell t

/-- The value of a result exceeds the threshold. -/
def aboveThreshold (cfg : Config) (t : Turn) : Bool := t.value.gt (.fin cfg.cordonThreshold)

/-- `gauge_set("remediation_cooldown_active", ..)`. -/
def setCooldownGauge (w : World) (node : String) (active : Bool) : World :=
  { w with
    gauges := gaugeSet w.gauges "remediation_cooldown_active" (if active then 1 else 0)
      [("node", node)] }

/-- The body of the loop of `poll_once`; what `remediate_node` raises is logged. -/
def pollTurn (cfg : Config) (w : World) (t : Turn) : World :=
  if aboveThreshold cfg t then
    if cooldownActive cfg w.state t.node t.checkedAt then setCooldownGauge w t.node true
    else (remediateNode cfg t.answers t.node t.value (setCooldownGauge w t.node false)).1
  else setCooldownGauge w t.node false

/-- `state = _load_state()`. -/
def pollLoad (w : World) : World := { w with state := loadState w.file }

/-- The end of `poll_once`: the last gauge, and `_save_state(state)`. -/
def pollSave (atRisk : Nat) (w : World) : World :=
  { w with
    gauges := gaugeSet w.gauges "remediation_nodes_at_risk" (atRisk : ℚ) []
    file := saveState w.state }

/-- `gauge_set("remediation_controller_last_poll_timestamp", time.time())`. -/
def setLastPoll (w : World) (now : ℚ) : World :=
  { w with gauges := gaugeSet w.gauges "remediation_controller_last_poll_timestamp" now [] }

/-- `poll_once` at the time `now`; no `turns` when the query raises. -/
def pollOnce (cfg : Config) (now : ℚ) (turns : Option (List Turn)) (w : World) : World :=
  let w := setLastPoll w now
  match turns with
  | none => { w with counters := counterInc w.counters "remediation_poll_errors_total" [] }
  | some turns =>
      pollSave (turns.filter (aboveThreshold cfg)).length (turns.foldl (pollTurn cfg) (pollLoad w))

/-! ## The process -/

/-- The metrics of a fresh process. -/
def newGauges : Samples String ℚ := fun name =>
  if name = "remediation_nodes_at_risk" ∨ name = "remediation_controller_last_poll_timestamp" then
    [([], 0)]
  else []

/-- A fresh controller in front of a state file and the node objects of a cluster. -/
def startWorld (file : StateFile) (nodes : String → Json) : World where
  file := file
  state := fun _ => none
  nodes := nodes
  events := []
  lokiLines := []
  counters := fun _ => []
  gauges := newGauges
  patched := []
  recorded := []

/-- A restart between two polls loses what the process holds in memory. -/
def restart (w : World) : World :=
  { w with state := fun _ => none, counters := fun _ => [], gauges := newGauges }

/-! ## What the steps of a poll can do

One equation for each field of the world which the results below look at. -/

/-- `push_loki` raises nothing. -/
def lokiAccepts (cfg : Config) : Bool :=
  cfg.lokiUrl = "" || requestHasType (lokiPushUrl cfg)

/-- Both patches of a live remediation succeed. -/
def bothPatched (cfg : Config) (ans : Answers) : Bool :=
  !cfg.dryRun && ans.cordon = .ok && ans.taint = .ok

/-- The remediation gets as far as `_update_state_entry`. -/
def recordsAction (cfg : Config) (ans : Answers) : Bool :=
  cfg.dryRun || (bothPatched cfg ans && lokiAccepts cfg)

/-- The entry which a remediation records. -/
def actionEntry (cfg : Config) (ans : Answers) (probability : PyFloat) : StateEntry where
  lastAction := isoformat ans.recordedAt
  probability := probability
  dryRun := cfg.dryRun

/-- A request has no error exactly when it was answered. -/
theorem Reply.error_eq_none_iff (method path : String) (reply : Reply) :
    reply.error method path = none ↔ reply = .ok := by
  cases reply <;> simp [Reply.error]

/-- `push_loki` adds lines at most, and raises exactly when no scheme is found. -/
theorem pushLoki_eq (cfg : Config) (delivered : Bool) (w : World) (node : String)
    (probability : PyFloat) (action : String) (dryRun : Bool) :
    ∃ lines, pushLoki cfg delivered w node probability action dryRun =
      ({ w with lokiLines := lines },
        if lokiAccepts cfg then none else some .unknownUrlType) := by
  unfold pushLoki lokiAccepts
  by_cases hurl : cfg.lokiUrl = ""
  · exact ⟨w.lokiLines, by simp [hurl]⟩
  · cases htype : requestHasType (lokiPushUrl cfg) with
    | false => exact ⟨w.lokiLines, by simp [hurl]⟩
    | true =>
        cases delivered with
        | false => exact ⟨w.lokiLines, by simp [hurl]⟩
        | true => exact ⟨_, by simp [hurl]; rfl⟩

/-- A patch touches the node objects only. -/
theorem patchNode_eq (w : World) (reply : Reply) (node : String) (patch : Json) :
    ∃ nodes, patchNode w reply node patch =
      ({ w with nodes := nodes }, reply.error "PATCH" ("/api/v1/nodes/" ++ node)) := by
  unfold patchNode
  by_cases h : reply.applied
  · exact ⟨_, by simp [h]; rfl⟩
  · exact ⟨w.nodes, by simp [h]⟩

/-- A patch which is answered is merged. -/
theorem patchNode_ok (w : World) (node : String) (patch : Json) :
    patchNode w .ok node patch =
      ({ w with nodes := Function.update w.nodes node (mergePatch patch (w.nodes node)) },
        none) := by
  simp [patchNode, Reply.applied, Reply.error]

/-- An event changes only the events. -/
theorem createEvent_eq (w : World) (reply : Reply) (event : KubeEvent) :
    ∃ events, createEvent w reply event = { w with events := events } := by
  unfold createEvent
  by_cases h : reply.applied
  · exact ⟨_, by simp [h]; rfl⟩
  · exact ⟨w.events, by simp [h]⟩

/-- A dry run records the action first; then `push_loki` may raise. -/
theorem remediateNode_dry {cfg : Config} (hdry : cfg.dryRun = true) (ans : Answers)
    (node : String) (probability : PyFloat) (w : World) :
    ∃ lines, remediateNode cfg ans node probability w =
      ({ recordAction w node probability true ans.recordedAt with lokiLines := lines },
        if lokiAccepts cfg then none else some .unknownUrlType) := by
  obtain ⟨lines, hpush⟩ := pushLoki_eq cfg ans.lokiDelivered
    (recordAction w node probability true ans.recordedAt) node probability "cordon" true
  exact ⟨lines, by simp [remediateNode, hdry, hpush]⟩

/-- A live remediation whose patches do not both succeed raises, and has touched
the node objects at most. -/
theorem remediateNode_failed {cfg : Config} (hdry : cfg.dryRun = false) {ans : Answers}
    (hpatch : ¬ (ans.cordon = .ok ∧ ans.taint = .ok)) (node : String)
    (probability : PyFloat) (w : World) :
    ∃ nodes err, remediateNode cfg ans node probability w =
      ({ w with nodes := nodes }, some err) := by
  obtain ⟨nodes, hcordon⟩ := patchNode_eq w ans.cordon node buildCordonPatch
  cases herr : ans.cordon.error "PATCH" ("/api/v1/nodes/" ++ node) with
  | some err => exact ⟨nodes, err, by simp [remediateNode, hdry, hcordon, herr]⟩
  | none =>
      have hok : ans.cordon = .ok := (Reply.error_eq_none_iff _ _ _).mp herr
      have htaint : ans.taint.error "PATCH" ("/api/v1/nodes/" ++ node) ≠ none := by
        intro h
        exact hpatch ⟨hok, (Reply.error_eq_none_iff _ _ _).mp h⟩
      obtain ⟨err, herr'⟩ := Option.ne_none_iff_exists'.mp htaint
      obtain ⟨nodes', hnodes'⟩ := patchNode_eq { w with nodes := nodes } ans.taint node
        (buildTaintPatch cfg.cordonThreshold)
      exact ⟨nodes', err, by simp [remediateNode, hdry, hcordon, herr, hnodes', herr']⟩

/-- The world after the two patches of a live remediation. -/
def patchedWorld (cfg : Config) (node : String) (w : World) : World :=
  { w with
    nodes := Function.update w.nodes node
      (mergePatch (buildTaintPatch cfg.cordonThreshold)
        (mergePatch buildCordonPatch (w.nodes node)))
    patched := w.patched ++ [node] }

/-- A live remediation both of whose patches succeed merges them into the node
object; it records the action unless `push_loki` raises. -/
theorem remediateNode_patched {cfg : Config} (hdry : cfg.dryRun = false) {ans : Answers}
    (hcordon : ans.cordon = .ok) (htaint : ans.taint = .ok) (node : String)
    (probability : PyFloat) (w : World) :
    ∃ events lines, remediateNode cfg ans node probability w =
      if lokiAccepts cfg then
        (recordAction { patchedWorld cfg node w with events := events, lokiLines := lines }
          node probability false ans.recordedAt, none)
      else
        ({ patchedWorld cfg node w with events := events, lokiLines := lines },
          some .unknownUrlType) := by
  obtain ⟨events, hevents⟩ := createEvent_eq (patchedWorld cfg node w) ans.event
    (buildEvent cfg node probability false ans.eventAt)
  obtain ⟨lines, hpush⟩ := pushLoki_eq cfg ans.lokiDelivered
    { patchedWorld cfg node w with events := events } node probability "cordon" false
  refine ⟨events, lines, ?_⟩
  have hrun : remediateNode cfg ans node probability w =
      match pushLoki cfg ans.lokiDelivered { patchedWorld cfg node w with events := events }
        node probability "cordon" false with
      | (v, some err) => (v, some err)
      | (v, none) => (recordAction v node probability false ans.recordedAt, none) := by
    rw [← hevents]
    simp [remediateNode, hdry, hcordon, htaint, patchNode_ok, patchedWorld]
  rw [hrun, hpush]
  cases lokiAccepts cfg <;> rfl

/-- What the results about the state file look at. -/
structure Ledger where
  file : StateFile
  state : State
  recorded : List (String × ℚ)
  patched : List String

def World.ledger (w : World) : Ledger where
  file := w.file
  state := w.state
  recorded := w.recorded
  patched := w.patched

/-- Every path of `remediate_node` at once: the state and the record change if and
only if the call gets as far as `_update_state_entry`. -/
theorem remediateNode_ledger (cfg : Config) (ans : Answers) (node : String)
    (probability : PyFloat) (w : World) :
    (remediateNode cfg ans node probability w).1.ledger =
      { file := w.file
        state :=
          if recordsAction cfg ans then
            Function.update w.state node (some (actionEntry cfg ans probability))
          else w.state
        recorded :=
          if recordsAction cfg ans then w.recorded ++ [(node, ans.recordedAt)] else w.recorded
        patched := if bothPatched cfg ans then w.patched ++ [node] else w.patched } := by
  cases hdry : cfg.dryRun with
  | true =>
      obtain ⟨lines, h⟩ := remediateNode_dry hdry ans node probability w
      simp [h, World.ledger, recordsAction, bothPatched, actionEntry, recordAction,
        updateStateEntry, hdry]
  | false =>
      by_cases hpatch : ans.cordon = .ok ∧ ans.taint = .ok
      · obtain ⟨events, lines, h⟩ :=
          remediateNode_patched hdry hpatch.1 hpatch.2 node probability w
        cases hloki : lokiAccepts cfg <;>
          simp [h, World.ledger, recordsAction, bothPatched, actionEntry, recordAction,
            updateStateEntry, patchedWorld, hdry, hpatch, hloki]
      · obtain ⟨nodes, err, h⟩ := remediateNode_failed hdry hpatch node probability w
        have hboth : bothPatched cfg ans = false := by
          simp [bothPatched, hdry]
          tauto
        simp [h, World.ledger, recordsAction, hboth, hdry]

/-- The turn calls `remediate_node`. -/
def acts (cfg : Config) (state : State) (t : Turn) : Bool :=
  aboveThreshold cfg t && !cooldownActive cfg state t.node t.checkedAt

/-- The turn records a remediation. -/
def records (cfg : Config) (state : State) (t : Turn) : Bool :=
  acts cfg state t && recordsAction cfg t.answers

/-- The gauge does not change the ledger. -/
@[simp] theorem ledger_setCooldownGauge (w : World) (node : String) (active : Bool) :
    (setCooldownGauge w node active).ledger = w.ledger := rfl

/-- **What a turn of the loop can do.** -/
theorem pollTurn_ledger (cfg : Config) (w : World) (t : Turn) :
    (pollTurn cfg w t).ledger =
      { file := w.file
        state :=
          if records cfg w.state t then
            Function.update w.state t.node (some (actionEntry cfg t.answers t.value))
          else w.state
        recorded :=
          if records cfg w.state t then w.recorded ++ [(t.node, t.answers.recordedAt)]
          else w.recorded
        patched :=
          if acts cfg w.state t && bothPatched cfg t.answers then w.patched ++ [t.node]
          else w.patched } := by
  cases habove : aboveThreshold cfg t with
  | false =>
      have hacts : acts cfg w.state t = false := by simp [acts, habove]
      have hturn : pollTurn cfg w t = setCooldownGauge w t.node false := by
        simp [pollTurn, habove]
      rw [hturn, ledger_setCooldownGauge]
      simp [records, hacts, World.ledger]
  | true =>
      cases hactive : cooldownActive cfg w.state t.node t.checkedAt with
      | true =>
          have hacts : acts cfg w.state t = false := by simp [acts, hactive]
          have hturn : pollTurn cfg w t = setCooldownGauge w t.node true := by
            simp [pollTurn, habove, hactive]
          rw [hturn, ledger_setCooldownGauge]
          simp [records, hacts, World.ledger]
      | false =>
          have hacts : acts cfg w.state t = true := by simp [acts, habove, hactive]
          have hturn : pollTurn cfg w t =
              (remediateNode cfg t.answers t.node t.value
                (setCooldownGauge w t.node false)).1 := by
            simp [pollTurn, habove, hactive]
          rw [hturn, remediateNode_ledger]
          simp [records, hacts, setCooldownGauge]

section TurnFields

variable (cfg : Config) (w : World) (t : Turn)

/-- A turn of the poll saves nothing. -/
theorem pollTurn_file : (pollTurn cfg w t).file = w.file :=
  congrArg Ledger.file (pollTurn_ledger cfg w t)

/-- A turn records its action where it takes one. -/
theorem pollTurn_state : (pollTurn cfg w t).state =
    if records cfg w.state t then
      Function.update w.state t.node (some (actionEntry cfg t.answers t.value))
    else w.state :=
  congrArg Ledger.state (pollTurn_ledger cfg w t)

/-- A turn's record is noted with its time. -/
theorem pollTurn_recorded : (pollTurn cfg w t).recorded =
    if records cfg w.state t then w.recorded ++ [(t.node, t.answers.recordedAt)]
    else w.recorded :=
  congrArg Ledger.recorded (pollTurn_ledger cfg w t)

/-- A turn's node is noted where both patches went through. -/
theorem pollTurn_patched : (pollTurn cfg w t).patched =
    if acts cfg w.state t && bothPatched cfg t.answers then w.patched ++ [t.node]
    else w.patched :=
  congrArg Ledger.patched (pollTurn_ledger cfg w t)

end TurnFields

/-- A turn which records has found the cooldown inactive. -/
theorem cooldown_inactive_of_records {cfg : Config} {state : State} {t : Turn}
    (h : records cfg state t = true) :
    cooldownActive cfg state t.node t.checkedAt = false := by
  unfold records acts at h
  simp only [Bool.and_eq_true, Bool.not_eq_true'] at h
  exact h.1.2

end FaultOracle.Remediation
