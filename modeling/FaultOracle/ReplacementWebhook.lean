import FaultOracle.JsonValues
import FaultOracle.RemediationState

/-!
# The webhook of the remediation programs

`remediation/webhook-server.py`: operators confirm the replacement of a part, which
clears the cooldown of its node, and report false positives.  Each handler performs
its effects one after the other on values straight out of the JSON decoder, and the
`TypeError` of a list or a dictionary used as a key comes where the first key is
needed: before any effect for the `node` of a replacement, after the effects on the
files for its `component` and for the `alertname` of a false positive.
-/

namespace FaultOracle.Remediation.Webhook

open InsertionDict JsonValues

/-- What stands behind the `Content-Length` of a request: nothing, bytes which are no
JSON (or hold a number too long for `int`), text nested too deep for the decoder, or
a value.  What the decoder can nest, `json.dumps` can. -/
inductive Body
  | empty
  | valueError
  | recursionError
  | value (payload : Json)

structure Request where
  path : String
  authorization : String
  body : Body

structure Response where
  status : Nat
  contentType : String
  body : String
deriving DecidableEq, Repr

/-- One line of the audit log. -/
structure FalsePositive where
  alertname : Json
  node : Json
  timestamp : IsoText

/-- The files the server writes, its counters and the responses it has sent.  Of the
retrain file, which stays empty, only the times at which it was touched matter. -/
structure HookWorld where
  file : StateFile
  retrain : List ℚ
  falsePositives : List FalsePositive
  counters : Samples JsonKey Nat
  responses : List Response

/-- The exceptions a request can meet. -/
inductive HookError
  | recursionError
  | noAttributeGet
  | unhashable (type : String)
deriving DecidableEq, Repr

/-- `str(exc)`. -/
def HookError.text : HookError → String
  | .recursionError => "maximum recursion depth exceeded"
  | .noAttributeGet => "object has no attribute 'get'"
  | .unhashable type => "unhashable type: '" ++ type ++ "'"

/-- What `hash` raises for a value without one. -/
def hashError : Json → HookError
  | .obj _ => .unhashable "dict"
  | _ => .unhashable "list"

/-! ## Effects -/

/-- `_touch_retrain`. -/
def touchRetrain (w : HookWorld) (now : ℚ) : HookWorld := { w with retrain := w.retrain ++ [now] }

/-- `_append_false_positive`. -/
def appendFalsePositive (w : HookWorld) (record : FalsePositive) : HookWorld :=
  { w with falsePositives := w.falsePositives ++ [record] }

/-- `counter_inc(name, {label: value})`. -/
def hookCounterInc (w : HookWorld) (name label : String) (value : Json) :
    HookWorld × Option HookError :=
  match value.key? with
  | none => (w, some (hashError value))
  | some key => ({ w with counters := counterInc w.counters name [(label, key)] }, none)

/-- `del state[node]`. -/
def delNode (state : State) (node : String) : State := Function.update state node none

/-- The `if node in state` of `handle_replacement_confirmed`, on the loaded `state`: what
it leaves in the state file. -/
def removeEntry (state : State) (node : String) (file : StateFile) : StateFile :=
  if (state node).isSome then saveState (delNode state node) else file

/-- The same for any key; the keys of the state are strings. -/
def removeNode (w : HookWorld) (state : State) : JsonKey → HookWorld
  | .str node => { w with file := removeEntry state node w.file }
  | _ => w

/-- `handle_replacement_confirmed`. -/
def handleReplacementConfirmed (now : ℚ) (node component : Json) (w : HookWorld) :
    HookWorld × Option HookError :=
  match node.key? with
  | none => (w, some (hashError node))
  | some key =>
      hookCounterInc (touchRetrain (removeNode w (loadState w.file) key) now)
        "replacement_confirmed_total" "component" component

/-- `handle_false_positive`. -/
def handleFalsePositive (now : ℚ) (alertname node : Json) (w : HookWorld) :
    HookWorld × Option HookError :=
  hookCounterInc
    (appendFalsePositive w
      { alertname := alertname, node := node, timestamp := isoformat now })
    "false_positive_total" "alertname" alertname

/-! ## Requests -/

/-- `_send`. -/
def send (w : HookWorld) (status : Nat) (body : String) : HookWorld :=
  { w with
    responses := w.responses ++ [{ status := status, contentType := "text/plain", body := body }] }

/-- `_read_json`.  The decoded `null` and the failure to decode are both `None`. -/
def readJson : Body → Except HookError (Option Json)
  | .empty => .ok (some (.obj []))
  | .valueError => .ok none
  | .recursionError => .error .recursionError
  | .value payload => .ok (if payload.isNull then none else some payload)

/-- `payload.get(name, "")`. -/
def getField (payload : Json) (name : String) : Except HookError Json :=
  match payload.dictGet name (.str "") with
  | some value => .ok value
  | none => .error .noAttributeGet

/-- What the two endpoints do alike, from the decoded fields on. -/
def answerFields (missing : String)
    (handler : Json → Json → HookWorld → HookWorld × Option HookError)
    (first second : Json) (w : HookWorld) : HookWorld :=
  if !first.truthy || !second.truthy then send w 400 missing
  else
    match handler first second w with
    | (w, some exc) => send w 500 exc.text
    | (w, none) => send w 200 "ok"

/-- A branch of `do_POST`, with the names of its two fields.  What is raised here
leaves `do_POST`, and no response is sent. -/
def endpoint (firstName secondName missing : String)
    (handler : Json → Json → HookWorld → HookWorld × Option HookError)
    (body : Body) (w : HookWorld) : HookWorld × Option HookError :=
  match readJson body with
  | .error exc => (w, some exc)
  | .ok none => (send w 400 "invalid JSON", none)
  | .ok (some payload) =>
      match getField payload firstName, getField payload secondName with
      | .ok first, .ok second => (answerFields missing handler first second w, none)
      | .error exc, _ => (w, some exc)
      | .ok _, .error exc => (w, some exc)

def replacementPath : String := "/webhook/replacement-confirmed"

def falsePositivePath : String := "/webhook/false-positive"

/-- `_check_auth`, apart from its response: an absent or empty token lets all through. -/
def checkAuth (webhookToken : Option String) (req : Request) : Bool :=
  match webhookToken with
  | none => true
  | some token => token = "" || req.authorization = "Bearer " ++ token

/-- `do_POST` at the time `now`: the world it leaves, and what it raises. -/
def doPost (webhookToken : Option String) (now : ℚ) (req : Request) (w : HookWorld) :
    HookWorld × Option HookError :=
  if checkAuth webhookToken req = false then (send w 401 "Unauthorized", none)
  else if req.path = replacementPath then
    endpoint "node" "component" "missing node or component" (handleReplacementConfirmed now)
      req.body w
  else if req.path = falsePositivePath then
    endpoint "alertname" "node" "missing alertname or node" (handleFalsePositive now) req.body w
  else (send w 404 "not found", none)

/-! ## One response, and all or nothing -/

/-- The files and the counters are exactly as before. -/
structure Untouched (w w' : HookWorld) : Prop where
  file : w'.file = w.file
  retrain : w'.retrain = w.retrain
  falsePositives : w'.falsePositives = w.falsePositives
  counters : w'.counters = w.counters

/-- Exactly one response was sent, and if its status is not 200 nothing else has
changed. -/
def AnsweredOnce (w w' : HookWorld) : Prop :=
  ∃ response, w'.responses = w.responses ++ [response] ∧
    (response.status ≠ 200 → Untouched w w')

/-- The body makes a branch of `do_POST` raise, or the handler fail `late`, with some
of its effects done: text nested too deep, a value which is not an object (`null`
apart), or an object whose fields say so. -/
def bodyBreaks (firstName secondName : String) (late : Json → Json → Bool) : Body → Bool
  | .empty => false
  | .valueError => false
  | .recursionError => true
  | .value .null => false
  | .value (.obj fields) =>
      let first := ((Json.obj fields).get? firstName).getD (.str "")
      let second := ((Json.obj fields).get? secondName).getD (.str "")
      first.truthy && second.truthy && late first second
  | .value _ => true

/-- An authorised request breaks an endpoint. -/
def breaks (webhookToken : Option String) (req : Request) : Bool :=
  checkAuth webhookToken req &&
    ((req.path = replacementPath &&
        bodyBreaks "node" "component" (fun node component => node.hashable && !component.hashable)
          req.body) ||
      (req.path = falsePositivePath &&
        bodyBreaks "alertname" "node" (fun alertname _ => !alertname.hashable) req.body))

theorem Untouched.refl (w : HookWorld) : Untouched w w := ⟨rfl, rfl, rfl, rfl⟩

/-- A response sent after some silent effects answers the request as it should unless
its status is not 200 and an effect was done. -/
theorem answeredOnce_send_iff {w w' : HookWorld} (silent : w'.responses = w.responses)
    (status : Nat) (body : String) :
    AnsweredOnce w (send w' status body) ↔ (status ≠ 200 → Untouched w w') := by
  constructor
  · intro h hstatus
    obtain ⟨response, hresponses, huntouched⟩ := h
    have hsent : w.responses ++ [{ status := status, contentType := "text/plain", body := body }] =
        w.responses ++ [response] := by
      rw [← hresponses, ← silent]
      rfl
    have hresponse : response.status = status := by
      rw [← List.singleton_inj.mp (List.append_cancel_left hsent)]
    have hframe := huntouched (by rw [hresponse]; exact hstatus)
    exact ⟨hframe.file, hframe.retrain, hframe.falsePositives, hframe.counters⟩
  · intro h
    refine ⟨_, congrArg (· ++ [_]) silent, ?_⟩
    intro hstatus
    have hframe := h hstatus
    exact ⟨hframe.file, hframe.retrain, hframe.falsePositives, hframe.counters⟩

theorem answeredOnce_send (w : HookWorld) (status : Nat) (body : String) :
    AnsweredOnce w (send w status body) :=
  (answeredOnce_send_iff rfl status body).mpr fun _ => Untouched.refl w

/-- Without a response nothing was answered. -/
theorem not_answeredOnce_self (w : HookWorld) : ¬ AnsweredOnce w w := by
  rintro ⟨response, hresponses, -⟩
  simp at hresponses

theorem hookCounterInc_hashable {value : Json} (h : value.hashable = true) (w : HookWorld)
    (name label : String) :
    ∃ counters, hookCounterInc w name label value = ({ w with counters := counters }, none) := by
  obtain ⟨key, hkey⟩ := Option.isSome_iff_exists.mp h
  exact ⟨_, by simp [hookCounterInc, hkey]; rfl⟩

theorem hookCounterInc_unhashable {value : Json} (h : value.hashable = false) (w : HookWorld)
    (name label : String) :
    hookCounterInc w name label value = (w, some (hashError value)) := by
  have hkey : value.key? = none := by simpa [Json.hashable] using h
  simp [hookCounterInc, hkey]

/-- How a handler can end: it succeeds, it raises before its first effect, or it
raises `late`, with some effect done.  It sends nothing itself. -/
inductive HandlerOutcome (w : HookWorld) : HookWorld × Option HookError → Bool → Prop
  | success {w' : HookWorld} (silent : w'.responses = w.responses) :
      HandlerOutcome w (w', none) false
  | clean (exc : HookError) : HandlerOutcome w (w, some exc) false
  | late {w' : HookWorld} (exc : HookError) (silent : w'.responses = w.responses)
      (touched : ¬ Untouched w w') : HandlerOutcome w (w', some exc) true

theorem removeNode_frame (w : HookWorld) (state : State) (key : JsonKey) :
    ∃ file, removeNode w state key = { w with file := file } := by
  cases key with
  | none => exact ⟨w.file, rfl⟩
  | num x => exact ⟨w.file, rfl⟩
  | str node => exact ⟨removeEntry state node w.file, rfl⟩

/-- The `node` is used as a key before the first effect, the `component` after the
retrain file was touched. -/
theorem handleReplacementConfirmed_outcome (now : ℚ) (node component : Json) (w : HookWorld) :
    HandlerOutcome w (handleReplacementConfirmed now node component w)
      (node.hashable && !component.hashable) := by
  unfold handleReplacementConfirmed
  cases hnode : node.key? with
  | none =>
      have hhash : node.hashable = false := by simp [Json.hashable, hnode]
      rw [hhash]
      exact HandlerOutcome.clean _
  | some key =>
      have hhash : node.hashable = true := by simp [Json.hashable, hnode]
      obtain ⟨file, hfile⟩ := removeNode_frame w (loadState w.file) key
      simp only [hhash, Bool.true_and, hfile]
      cases hcomponent : component.hashable with
      | true =>
          obtain ⟨counters, hcount⟩ := hookCounterInc_hashable hcomponent
            (touchRetrain { w with file := file } now) "replacement_confirmed_total" "component"
          rw [hcount]
          exact HandlerOutcome.success rfl
      | false =>
          have htouched : ¬ Untouched w (touchRetrain { w with file := file } now) := by
            intro h
            have hretrain : w.retrain ++ [now] = w.retrain := h.retrain
            simp at hretrain
          rw [hookCounterInc_unhashable hcomponent]
          exact HandlerOutcome.late _ rfl htouched

/-- The `alertname` is used as a key after the record was appended. -/
theorem handleFalsePositive_outcome (now : ℚ) (alertname node : Json) (w : HookWorld) :
    HandlerOutcome w (handleFalsePositive now alertname node w) (!alertname.hashable) := by
  unfold handleFalsePositive
  generalize hrecord : FalsePositive.mk alertname node (isoformat now) = record
  cases hname : alertname.hashable with
  | true =>
      obtain ⟨counters, hcount⟩ := hookCounterInc_hashable hname
        (appendFalsePositive w record) "false_positive_total" "alertname"
      rw [hcount]
      exact HandlerOutcome.success rfl
  | false =>
      have htouched : ¬ Untouched w (appendFalsePositive w record) := by
        intro h
        have hlog : w.falsePositives ++ [record] = w.falsePositives := h.falsePositives
        simp at hlog
      rw [hookCounterInc_unhashable hname]
      exact HandlerOutcome.late _ rfl htouched

section Endpoint

variable {handler : Json → Json → HookWorld → HookWorld × Option HookError}
  {late : Json → Json → Bool}

/-- From the decoded fields on, a request is answered as it should be unless the
handler fails late. -/
theorem answerFields_iff (missing : String) {first second : Json} {w : HookWorld} {b : Bool}
    (houtcome : HandlerOutcome w (handler first second w) b) :
    AnsweredOnce w (answerFields missing handler first second w) ↔
      (first.truthy && second.truthy && b) = false := by
  unfold answerFields
  cases hfirst : first.truthy with
  | false => simp [answeredOnce_send]
  | true =>
      cases hsecond : second.truthy with
      | false => simp [answeredOnce_send]
      | true =>
          simp only [Bool.not_true, Bool.or_self, Bool.false_eq_true, if_false, Bool.true_and]
          generalize handler first second w = result at houtcome ⊢
          cases houtcome with
          | success silent => simp [answeredOnce_send_iff silent]
          | clean exc => simp [answeredOnce_send]
          | late exc silent touched => simp [answeredOnce_send_iff silent, touched]

/-- A branch of `do_POST` answers its request as it should unless the body breaks it. -/
theorem endpoint_iff (firstName secondName missing : String) (body : Body) (w : HookWorld)
    (houtcome : ∀ first second,
      HandlerOutcome w (handler first second w) (late first second)) :
    AnsweredOnce w (endpoint firstName secondName missing handler body w).1 ↔
      bodyBreaks firstName secondName late body = false := by
  have hfields : ∀ fields,
      AnsweredOnce w
        (endpoint firstName secondName missing handler (.value (.obj fields)) w).1 ↔
      bodyBreaks firstName secondName late (.value (.obj fields)) = false := by
    intro fields
    exact answerFields_iff missing (houtcome _ _)
  cases body with
  | empty =>
      have hempty : endpoint firstName secondName missing handler .empty w =
          (send w 400 missing, none) := rfl
      simp [hempty, answeredOnce_send, bodyBreaks]
  | valueError => simp [endpoint, readJson, answeredOnce_send, bodyBreaks]
  | recursionError => simp [endpoint, readJson, not_answeredOnce_self, bodyBreaks]
  | value payload =>
      cases payload with
      | null => simp [endpoint, readJson, Json.isNull, answeredOnce_send, bodyBreaks]
      | obj fields => exact hfields fields
      | bool b | num x | str s | arr elems =>
          simp [endpoint, readJson, Json.isNull, getField, Json.dictGet, not_answeredOnce_self,
            bodyBreaks]

end Endpoint

/-- **The answer to a request.**  Exactly one response is sent, and nothing changes
unless its status is 200, if and only if the request does not break its endpoint: it
is not authorised, or its body is no JSON, `null` or an object whose fields are
missing or have a hash where the handler needs one late. -/
theorem answeredOnce_iff (webhookToken : Option String) (now : ℚ) (req : Request)
    (w : HookWorld) :
    AnsweredOnce w (doPost webhookToken now req w).1 ↔ breaks webhookToken req = false := by
  unfold doPost breaks
  cases hauth : checkAuth webhookToken req with
  | false => simp [answeredOnce_send]
  | true =>
      have hpaths : replacementPath ≠ falsePositivePath := by decide
      by_cases hreplacement : req.path = replacementPath
      · have hother : req.path ≠ falsePositivePath := by
          rw [hreplacement]
          exact hpaths
        simp [hreplacement, hpaths, endpoint_iff "node" "component" "missing node or component"
          req.body w
          (fun node component => handleReplacementConfirmed_outcome now node component w)]
      · by_cases hfalse : req.path = falsePositivePath
        · simp [hpaths.symm, hfalse, endpoint_iff "alertname" "node" "missing alertname or node"
            req.body w (fun alertname node => handleFalsePositive_outcome now alertname node w)]
        · simp [hreplacement, hfalse, answeredOnce_send]

/-- A state file with one node in cooldown. -/
def oneNodeFile : StateFile :=
  .dict (Function.update (fun _ => none) "node-1"
    (some { lastAction := .aware 0, probability := .fin (9 / 10), dryRun := false }))

def oneNodeWorld : HookWorld where
  file := oneNodeFile
  retrain := []
  falsePositives := []
  counters := fun _ => []
  responses := []

/-- A confirmation whose component is a list. -/
def listComponentRequest : Request where
  path := replacementPath
  authorization := ""
  body := .value (.obj [("node", .str "node-1"), ("component", .arr [.str "dimm"])])

/-- The response is a 500, but the cooldown of the node is gone. -/
theorem cooldown_cleared_by_failed_request :
    (doPost none 0 listComponentRequest oneNodeWorld).1.responses =
        [{ status := 500, contentType := "text/plain", body := "unhashable type: 'list'" }] ∧
      loadState (doPost none 0 listComponentRequest oneNodeWorld).1.file "node-1" = none ∧
      ¬ AnsweredOnce oneNodeWorld (doPost none 0 listComponentRequest oneNodeWorld).1 := by
  refine ⟨rfl, rfl, ?_⟩
  rintro ⟨response, hresponses, huntouched⟩
  have hresponse : [Response.mk 500 "text/plain" "unhashable type: 'list'"] = [response] :=
    hresponses
  have hstatus : response.status ≠ 200 := by
    rw [← List.singleton_inj.mp hresponse]
    decide
  have hretrain : [(0 : ℚ)] = [] := (huntouched hstatus).retrain
  cases hretrain

end FaultOracle.Remediation.Webhook
