import FaultOracle.JsonValues
import FaultOracle.PosixPaths
import Mathlib.Data.Rat.Defs

/-!
# The recovery webhook

`recovery/webhook-server.py` runs a script for every firing alert which has one.  The
name of the script is made of the `alertname` in the payload and looked up by joining
it to the handlers directory; a dictionary of fingerprints keeps the same label set
from being acted on twice within `COOLDOWN_SECONDS`.

A payload is any JSON value.  Whatever is raised outside the `try` around
`subprocess.run` ends the request without a response, and the alerts behind it are
not looked at.
-/

namespace FaultOracle.Recovery

open InsertionDict JsonValues PosixPaths

def cooldownSeconds : ℚ := 300

/-- What Python's library makes of values and no result below depends on: `str` of a
value which is no string, `str.upper`, and the first 16 hex digits of the SHA-256 of
the JSON text of a value. -/
structure Library where
  str : Json → String
  upper : String → String
  digest : Json → String

/-- The settings of `WebhookHandler`; the handlers directory comes from a command
line, so there is no NUL in it. -/
structure Config where
  handlersDir : PosixPath
  dryRun : Bool
  library : Library

/-- How `Path.exists` ends: it returns, or it lets an `OSError` pass (a name too long for
the file system, a directory without permission). -/
inductive Lookup
  | present
  | absent
  | osError
deriving DecidableEq, Repr

/-- What the world answers while the loop is at an alert: the lookups in the file
system, the clock, and whether the process for the script can be started.  It cannot when
the kernel refuses it, as with `E2BIG` for a variable of 128 KiB. -/
structure Answers where
  lookup : PosixPath → Lookup
  now : ℚ
  spawns : Bool

/-- A script that was run.  The last two fields belong to the model: the labels of its
alert and the reading of the clock for which `_allowed` let it through. -/
structure Execution where
  script : PosixPath
  env : List (String × Json)
  alertname : String
  labels : Json
  time : ℚ

structure Response where
  status : Nat
  body : String
deriving DecidableEq, Repr

/-- `_recent`, the scripts that were run and the responses that were sent. -/
structure Server where
  recent : String → Option ℚ
  executions : List Execution
  responses : List Response

def newServer : Server where
  recent := fun _ => none
  executions := []
  responses := []

/-- The exceptions which leave `do_POST`. -/
inductive PyError
  | attributeError
  | typeError
  | osError
  | decodeError
deriving DecidableEq, Repr

/-! ## Fingerprints and cooldown -/

/-- `alert.get("labels", {})` of an alert which is a dictionary. -/
def alertLabels (alert : Json) : Json := (alert.get? "labels").getD (.obj [])

/-- `_make_fingerprint`. -/
def makeFingerprint (library : Library) (alert : Json) : String :=
  library.digest (sortKeys (alertLabels alert))

/-- `_allowed` at the time `now`: the dictionary it leaves, if it allows. -/
def allowed (recent : String → Option ℚ) (fingerprint : String) (now : ℚ) :
    Option (String → Option ℚ) :=
  if now - (recent fingerprint).getD 0 < cooldownSeconds then none
  else some (Function.update recent fingerprint (some now))

/-! ## Handlers -/

/-- `str(value)`, also as an f-string writes it. -/
def pyStr (library : Library) : Json → String
  | .str s => s
  | value => library.str value

/-- `f"{alert_name}.sh"`. -/
def scriptName (library : Library) (alertname : Json) : List Char :=
  (pyStr library alertname).toList ++ ['.', 's', 'h']

/-- `_handler_path`.  There is no path with a NUL in it, for which `exists` is false. -/
def handlerPath (cfg : Config) (ans : Answers) (alertname : Json) :
    Except PyError (Option PosixPath) :=
  let p := cfg.handlersDir.join (scriptName cfg.library alertname)
  if '\x00' ∈ scriptName cfg.library alertname then .ok none
  else
    match ans.lookup p with
    | .present => .ok (some p)
    | .absent => .ok none
    | .osError => .error .osError

/-- `env[f"<head>{k.upper()}"] = str(v)` for the items of a dictionary. -/
def exportItems (library : Library) (head : String) (items : List (String × Json))
    (env : List (String × Json)) : List (String × Json) :=
  items.foldl
    (fun env item => setItem (head ++ library.upper item.1) (.str (pyStr library item.2)) env) env

/-- The variables which `_run_handler` adds to a copy of `os.environ`. -/
def alertEnv (library : Library) (alert : Json) (labels annotations : List (String × Json)) :
    List (String × Json) :=
  let env := exportItems library "ALERT_" labels []
  let env := exportItems library "ALERT_ANNOTATION_" annotations env
  let env := setItem "ALERT_STATUS" ((alert.get? "status").getD (.str "firing")) env
  setItem "ALERT_STARTS_AT" ((alert.get? "startsAt").getD (.str "")) env

/-- `subprocess.run` takes the variable: strings without a NUL, no `=` in the name.
Otherwise it raises before anything is run. -/
def envAccepted (env : List (String × Json)) : Bool :=
  env.all fun item =>
    !item.1.toList.contains '=' && !item.1.toList.contains '\x00' &&
      match item.2 with
      | .str value => !value.toList.contains '\x00'
      | _ => false

/-- `_run_handler`; its exit code goes to the log only.  What `subprocess.run` raises is
caught. -/
def runHandler (cfg : Config) (ans : Answers) (script : PosixPath) (alertname alert : Json)
    (s : Server) : Server × Option PyError :=
  match alertLabels alert, (alert.get? "annotations").getD (.obj []) with
  | .obj labels, .obj annotations =>
      let env := alertEnv cfg.library alert labels annotations
      if cfg.dryRun then (s, none)
      else if envAccepted env && ans.spawns then
        ({ s with
            executions := s.executions ++
              [{ script := script, env := env, alertname := pyStr cfg.library alertname,
                 labels := alertLabels alert, time := ans.now }] }, none)
      else (s, none)
  | _, _ => (s, some .attributeError)

/-! ## Requests -/

def isFiring : Json → Bool
  | .str status => status = "firing"
  | _ => false

/-- The body of the loop of `do_POST`. -/
def handleAlert (cfg : Config) (s : Server) (alert : Json) (ans : Answers) :
    Server × Option PyError :=
  match alert.dictGet "status" .null with
  | none => (s, some .attributeError)
  | some status =>
      if isFiring status = false then (s, none)
      else
        match (alertLabels alert).dictGet "alertname" (.str "") with
        | none => (s, some .attributeError)
        | some alertname =>
            match handlerPath cfg ans alertname with
            | .error exc => (s, some exc)
            | .ok none => (s, none)
            | .ok (some script) =>
                match allowed s.recent (makeFingerprint cfg.library alert) ans.now with
                | none => (s, none)
                | some recent =>
                    runHandler cfg ans script alertname alert { s with recent := recent }

/-- The loop of `do_POST`, over the alerts with what the world answers at each. -/
def handleAlerts (cfg : Config) : List (Json × Answers) → Server → Server × Option PyError
  | [], s => (s, none)
  | (alert, ans) :: rest, s =>
      match handleAlert cfg s alert ans with
      | (s, some exc) => (s, some exc)
      | (s, none) => handleAlerts cfg rest s

/-- What `for alert in payload.get("alerts", [])` goes through, after `len` was taken of
it: the elements of a list, the names in a dictionary, the characters of a string. -/
def payloadAlerts (payload : Json) : Except PyError (List Json) :=
  match payload.dictGet "alerts" (.arr []) with
  | none => .error .attributeError
  | some (.arr alerts) => .ok alerts
  | some (.obj fields) => .ok (fields.map fun item => .str item.1)
  | some (.str s) => .ok (s.toList.map fun c => .str (String.singleton c))
  | some _ => .error .typeError

/-- How `json.loads` ends on the body: a `JSONDecodeError`, another exception, a value. -/
inductive Body
  | notJson
  | undecodable
  | value (payload : Json)

/-- A POST request, with the answers of the world for each of its alerts. -/
structure Request where
  path : String
  body : Body
  answers : Nat → Answers

/-- The alerts of a list with their answers. -/
def withAnswers (answers : Nat → Answers) (alerts : List Json) : List (Json × Answers) :=
  alerts.mapIdx fun i alert => (alert, answers i)

def send (s : Server) (status : Nat) (body : String) : Server :=
  { s with responses := s.responses ++ [{ status := status, body := body }] }

/-- `do_POST`. -/
def doPost (cfg : Config) (s : Server) (req : Request) : Server × Option PyError :=
  if req.path ≠ "/webhook" then (send s 404 "", none)
  else
    match req.body with
    | .notJson => (send s 400 "", none)
    | .undecodable => (s, some .decodeError)
    | .value payload =>
        match payloadAlerts payload with
        | .error exc => (s, some exc)
        | .ok alerts =>
            match handleAlerts cfg (withAnswers req.answers alerts) s with
            | (s, some exc) => (s, some exc)
            | (s, none) => (send s 200 "ok", none)

/-- The server after a request; an exception ends the request only. -/
def serve (cfg : Config) (s : Server) (req : Request) : Server := (doPost cfg s req).1

/-! ## What a turn of the loop can do -/

/-- The alert is a dictionary whose status is `firing`. -/
def firing (alert : Json) : Bool := isFiring ((alert.get? "status").getD .null)

/-- `alert.get("labels", {}).get("alertname", "")`. -/
def alertName (alert : Json) : Json := ((alertLabels alert).get? "alertname").getD (.str "")

def alertAnnotations (alert : Json) : Json := (alert.get? "annotations").getD (.obj [])

/-- The path at which the handler of an alert is looked up. -/
def scriptPath (cfg : Config) (alert : Json) : PosixPath :=
  cfg.handlersDir.join (scriptName cfg.library (alertName alert))

/-- The loop raises before it looks for a handler: the alert is no dictionary, or it is
firing and its labels are none. -/
def raisesEarly : Json → Bool
  | .obj fields =>
      firing (.obj fields) &&
        match alertLabels (.obj fields) with
        | .obj _ => false
        | _ => true
  | _ => true

/-- `subprocess.run` gets to start a process: the annotations are a dictionary and the
variables are accepted. -/
def runs (library : Library) (alert : Json) : Bool :=
  match alertLabels alert, alertAnnotations alert with
  | .obj labels, .obj annotations => envAccepted (alertEnv library alert labels annotations)
  | _, _ => false

/-- A handler which is let through is executed. -/
def executes (cfg : Config) (alert : Json) (ans : Answers) : Bool :=
  !cfg.dryRun && runs cfg.library alert && ans.spawns

theorem executes_iff {cfg : Config} {alert : Json} {ans : Answers} :
    executes cfg alert ans = true ↔
      cfg.dryRun = false ∧ runs cfg.library alert = true ∧ ans.spawns = true := by
  simp [executes, and_assoc]

/-- The execution of the handler of an alert. -/
def execution (cfg : Config) (alert : Json) (ans : Answers) : Execution where
  script := scriptPath cfg alert
  env := alertEnv cfg.library alert (alertLabels alert).fields (alertAnnotations alert).fields
  alertname := pyStr cfg.library (alertName alert)
  labels := alertLabels alert
  time := ans.now

/-- `exists` answers yes for the handler of an alert. -/
def hasHandler (cfg : Config) (alert : Json) (ans : Answers) : Prop :=
  '\x00' ∉ scriptName cfg.library (alertName alert) ∧
    ans.lookup (scriptPath cfg alert) = .present

instance (cfg : Config) (alert : Json) (ans : Answers) : Decidable (hasHandler cfg alert ans) :=
  inferInstanceAs (Decidable (_ ∧ _))

theorem handleAlert_not_firing {alert : Json} (hearly : raisesEarly alert = false)
    (h : firing alert = false) (cfg : Config) (s : Server) (ans : Answers) :
    handleAlert cfg s alert ans = (s, none) := by
  cases alert with
  | obj fields =>
      have hstatus : isFiring ((fields.lookup "status").getD .null) = false := h
      simp [handleAlert, Json.dictGet, hstatus]
  | _ => cases hearly

theorem handleAlert_raisesEarly {alert : Json} (h : raisesEarly alert = true) (cfg : Config)
    (s : Server) (ans : Answers) : handleAlert cfg s alert ans = (s, some .attributeError) := by
  cases alert with
  | obj fields =>
      simp only [raisesEarly, Bool.and_eq_true] at h
      have hstatus : isFiring ((fields.lookup "status").getD .null) = true := h.1
      have hname : (alertLabels (.obj fields)).dictGet "alertname" (.str "") = none := by
        cases hlabels : alertLabels (.obj fields) with
        | obj labels => simp [hlabels] at h
        | _ => rfl
      unfold handleAlert
      rw [hname]
      simp [Json.dictGet, hstatus]
  | _ => rfl

theorem labels_of_firing {alert : Json} (hearly : raisesEarly alert = false)
    (hfiring : firing alert = true) : ∃ labels, alertLabels alert = .obj labels := by
  cases alert with
  | obj fields =>
      simp only [raisesEarly, hfiring, Bool.true_and] at hearly
      cases hlabels : alertLabels (.obj fields) with
      | obj labels => exact ⟨labels, rfl⟩
      | _ => simp [hlabels] at hearly
  | _ => cases hearly

/-- The turn of a firing alert whose labels are a dictionary. -/
theorem handleAlert_firing {alert : Json} (hearly : raisesEarly alert = false)
    (hfiring : firing alert = true) (cfg : Config) (s : Server) (ans : Answers) :
    handleAlert cfg s alert ans =
      match handlerPath cfg ans (alertName alert) with
      | .error exc => (s, some exc)
      | .ok none => (s, none)
      | .ok (some script) =>
          match allowed s.recent (makeFingerprint cfg.library alert) ans.now with
          | none => (s, none)
          | some recent =>
              runHandler cfg ans script (alertName alert) alert { s with recent := recent } := by
  cases alert with
  | obj fields =>
      have hstatus : isFiring ((fields.lookup "status").getD .null) = true := hfiring
      obtain ⟨labels, hlabels⟩ := labels_of_firing hearly hfiring
      have hname : (alertLabels (.obj fields)).dictGet "alertname" (.str "") =
          some (alertName (.obj fields)) := by
        simp [alertName, hlabels, Json.dictGet, Json.get?]
      unfold handleAlert
      rw [hname]
      simp [Json.dictGet, hstatus]
  | _ => cases hearly

theorem handlerPath_of_hasHandler {cfg : Config} {alert : Json} {ans : Answers}
    (h : hasHandler cfg alert ans) :
    handlerPath cfg ans (alertName alert) = .ok (some (scriptPath cfg alert)) := by
  unfold handlerPath
  rw [if_neg h.1]
  have hlookup : ans.lookup
      (cfg.handlersDir.join (scriptName cfg.library (alertName alert))) = .present := h.2
  simp only [hlookup]
  rfl

theorem handlerPath_of_not_hasHandler {cfg : Config} {alert : Json} {ans : Answers}
    (h : ¬ hasHandler cfg alert ans) (script : PosixPath) :
    handlerPath cfg ans (alertName alert) ≠ .ok (some script) := by
  unfold handlerPath
  by_cases hnul : '\x00' ∈ scriptName cfg.library (alertName alert)
  · simp [hnul]
  · cases hlookup : ans.lookup
        (cfg.handlersDir.join (scriptName cfg.library (alertName alert))) with
    | present => exact absurd ⟨hnul, hlookup⟩ h
    | absent => simp [hnul, hlookup]
    | osError => simp [hnul, hlookup]

/-- The turn of an alert without a handler changes nothing. -/
theorem handleAlert_no_handler {cfg : Config} {alert : Json} {ans : Answers}
    (h : ¬ hasHandler cfg alert ans) (s : Server) : (handleAlert cfg s alert ans).1 = s := by
  cases hearly : raisesEarly alert with
  | true => rw [handleAlert_raisesEarly hearly]
  | false =>
      cases hfiring : firing alert with
      | false => rw [handleAlert_not_firing hearly hfiring]
      | true =>
          rw [handleAlert_firing hearly hfiring]
          cases hpath : handlerPath cfg ans (alertName alert) with
          | error exc => rfl
          | ok found =>
              cases found with
              | none => rfl
              | some script => exact absurd hpath (handlerPath_of_not_hasHandler h script)

/-- What is left of a run of `_run_handler`. -/
theorem runHandler_fst (cfg : Config) (ans : Answers) (alert : Json) (s : Server) :
    (runHandler cfg ans (scriptPath cfg alert) (alertName alert) alert s).1 =
      { s with
        executions :=
          if executes cfg alert ans then s.executions ++ [execution cfg alert ans]
          else s.executions } := by
  have hannotations : (alert.get? "annotations").getD (.obj []) = alertAnnotations alert := rfl
  unfold runHandler executes runs execution
  rw [hannotations]
  cases alertLabels alert with
  | obj labels =>
      cases alertAnnotations alert with
      | obj annotations =>
          cases hdry : cfg.dryRun with
          | true => simp
          | false =>
              cases henv : envAccepted (alertEnv cfg.library alert labels annotations) <;>
                cases ans.spawns <;> simp [henv]
      | _ => simp
  | _ => simp

/-- **The turn of a firing alert with a handler.**  If its fingerprint is not in
cooldown the time is noted, and the handler is executed. -/
theorem handleAlert_handler {cfg : Config} {alert : Json} {ans : Answers}
    (hearly : raisesEarly alert = false) (hfiring : firing alert = true)
    (hhandler : hasHandler cfg alert ans) (s : Server) :
    (handleAlert cfg s alert ans).1 =
      match allowed s.recent (makeFingerprint cfg.library alert) ans.now with
      | none => s
      | some recent =>
          { recent := recent
            executions :=
              if executes cfg alert ans then s.executions ++ [execution cfg alert ans]
              else s.executions
            responses := s.responses } := by
  rw [handleAlert_firing hearly hfiring, handlerPath_of_hasHandler hhandler]
  cases hallowed : allowed s.recent (makeFingerprint cfg.library alert) ans.now with
  | none => rfl
  | some recent => exact runHandler_fst cfg ans alert { s with recent := recent }

/-- A turn raises nothing if its alert does not raise early, its annotations are a
dictionary and the lookup answers. -/
theorem handleAlert_quiet {cfg : Config} {alert : Json} {ans : Answers}
    (hearly : raisesEarly alert = false)
    (hannotations : firing alert = true → ∃ fields, alertAnnotations alert = .obj fields)
    (hlookup : firing alert = true → ans.lookup (scriptPath cfg alert) ≠ .osError) (s : Server) :
    (handleAlert cfg s alert ans).2 = none := by
  cases hfiring : firing alert with
  | false => rw [handleAlert_not_firing hearly hfiring]
  | true =>
      rw [handleAlert_firing hearly hfiring]
      by_cases hhandler : hasHandler cfg alert ans
      · rw [handlerPath_of_hasHandler hhandler]
        cases allowed s.recent (makeFingerprint cfg.library alert) ans.now with
        | none => rfl
        | some recent =>
            obtain ⟨labels, hlabels⟩ := labels_of_firing hearly hfiring
            obtain ⟨annotations, hfields⟩ := hannotations hfiring
            have hgetD : (alert.get? "annotations").getD (.obj []) = .obj annotations := hfields
            simp only [runHandler, hlabels, hgetD]
            cases cfg.dryRun <;>
              cases envAccepted (alertEnv cfg.library alert labels annotations) <;>
                cases ans.spawns <;> rfl
      · have hpath : handlerPath cfg ans (alertName alert) = .ok none := by
          have hanswers : ans.lookup
              (cfg.handlersDir.join (scriptName cfg.library (alertName alert))) ≠ .osError :=
            hlookup hfiring
          have hnone := handlerPath_of_not_hasHandler hhandler
          unfold handlerPath at hnone ⊢
          by_cases hnul : '\x00' ∈ scriptName cfg.library (alertName alert)
          · simp [hnul]
          · cases hfound : ans.lookup
                (cfg.handlersDir.join (scriptName cfg.library (alertName alert))) with
            | present => simp [hnul, hfound] at hnone
            | absent => simp [hnul, hfound]
            | osError => exact absurd hfound hanswers
        rw [hpath]

/-- A lookup that raises ends the turn before anything is noted. -/
theorem handleAlert_osError {cfg : Config} {alert : Json} {ans : Answers}
    (hearly : raisesEarly alert = false) (hfiring : firing alert = true)
    (hnul : '\x00' ∉ scriptName cfg.library (alertName alert))
    (hlookup : ans.lookup (scriptPath cfg alert) = .osError) (s : Server) :
    handleAlert cfg s alert ans = (s, some .osError) := by
  have hpath : handlerPath cfg ans (alertName alert) = .error .osError := by
    have hanswer : ans.lookup
        (cfg.handlersDir.join (scriptName cfg.library (alertName alert))) = .osError := hlookup
    unfold handlerPath
    rw [if_neg hnul]
    simp only [hanswer]
  rw [handleAlert_firing hearly hfiring, hpath]

/-- The loop is left by the first turn that raises. -/
theorem handleAlerts_raised {cfg : Config} {alert : Json} {ans : Answers} {s after : Server}
    {exc : PyError} (h : handleAlert cfg s alert ans = (after, some exc))
    (rest : List (Json × Answers)) :
    handleAlerts cfg ((alert, ans) :: rest) s = (after, some exc) := by
  rw [handleAlerts, h]

/-- **What a turn of the loop can do.**  It leaves the server alone, or it is the turn
of a firing alert with a handler which was let through. -/
theorem handleAlert_cases (cfg : Config) (s : Server) (alert : Json) (ans : Answers) :
    (handleAlert cfg s alert ans).1 = s ∨
      (firing alert = true ∧ hasHandler cfg alert ans ∧
        ∃ recent, allowed s.recent (makeFingerprint cfg.library alert) ans.now = some recent ∧
          (handleAlert cfg s alert ans).1 =
            { recent := recent
              executions :=
                if executes cfg alert ans then s.executions ++ [execution cfg alert ans]
                else s.executions
              responses := s.responses }) := by
  by_cases hhandler : hasHandler cfg alert ans
  · cases hearly : raisesEarly alert with
    | true =>
        left
        rw [handleAlert_raisesEarly hearly]
    | false =>
        cases hfiring : firing alert with
        | false =>
            left
            rw [handleAlert_not_firing hearly hfiring]
        | true =>
            have hturn := handleAlert_handler hearly hfiring hhandler s
            cases hallowed : allowed s.recent (makeFingerprint cfg.library alert) ans.now with
            | none =>
                left
                rw [hturn, hallowed]
            | some recent =>
                right
                refine ⟨rfl, hhandler, recent, rfl, ?_⟩
                rw [hturn, hallowed]
  · exact Or.inl (handleAlert_no_handler hhandler s)

/-! ## What a request can do -/

/-- The alerts which the loop of a request goes through, if nothing is raised. -/
def requestAlerts (path : String) (body : Body) : List Json :=
  if path ≠ "/webhook" then []
  else
    match body with
    | .value payload =>
        match payloadAlerts payload with
        | .ok alerts => alerts
        | .error _ => []
    | _ => []

/-- The turns of the loop. -/
def Request.turns (req : Request) : List (Json × Answers) :=
  withAnswers req.answers (requestAlerts req.path req.body)

/-- Apart from its response, a request is its turns. -/
theorem serve_turns (cfg : Config) (s : Server) (req : Request) :
    (serve cfg s req).recent = (handleAlerts cfg req.turns s).1.recent ∧
      (serve cfg s req).executions = (handleAlerts cfg req.turns s).1.executions := by
  unfold serve doPost Request.turns requestAlerts
  by_cases hpath : req.path = "/webhook"
  · simp only [hpath, ne_eq, not_true_eq_false, if_false]
    cases req.body with
    | notJson => exact ⟨rfl, rfl⟩
    | undecodable => exact ⟨rfl, rfl⟩
    | value payload =>
        cases hpayload : payloadAlerts payload with
        | error exc => simp [hpayload, withAnswers, handleAlerts]
        | ok alerts =>
            simp only [hpayload]
            cases hloop : handleAlerts cfg (withAnswers req.answers alerts) s with
            | mk after exc => cases exc <;> exact ⟨rfl, rfl⟩
  · simp [hpath, send, withAnswers, handleAlerts]

end FaultOracle.Recovery
