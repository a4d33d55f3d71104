import FaultOracle.GuardedRuns
import FaultOracle.TimedLogs
import FaultOracle.RecoveryWebhook
import Mathlib.Tactic.Linarith

/-!
# Duplicate suppression in the recovery webhook

The fingerprint dictionary is a register for the log of executions in the sense of
`TimedLogs`: it covers the log, so executions of one label set are spaced, and it is
witnessed by the log, so nothing but a recent execution holds an alert back.

The second half needs that the loop gets to the alert and that `subprocess.run` takes
its variables and can start the process.  An alert whose lookup lets an `OSError` pass ends
the loop: the alerts behind it in the payload are not acted on, whatever handlers they have.
-/

namespace FaultOracle.Recovery

open JsonValues TimedLogs

/-! ## Label sets -/

/-- A set of string labels with distinct names. -/
def StringLabels (labels : Json) : Prop :=
  ∃ items : List (String × String), (items.map Prod.fst).Nodup ∧
    labels = .obj (items.map fun l => (l.1, .str l.2))

/-- The same labels, in any order. -/
def SameLabels (a b : Json) : Prop := a.fields.Perm b.fields

/-- The same labels in another order are sorted alike. -/
theorem sortKeys_eq_of_sameLabels {a b : Json} (ha : StringLabels a) (hb : StringLabels b)
    (h : SameLabels a b) : sortKeys a = sortKeys b := by
  obtain ⟨items, hnames, rfl⟩ := ha
  obtain ⟨others, -, rfl⟩ := hb
  rw [sortKeys_strings, sortKeys_strings]
  apply congrArg Json.obj
  apply sortItems_eq_of_perm h
  simpa [List.map_map, Function.comp_def] using hnames

/-! ## Well-formed payloads -/

structure WellFormedAlert (alert : Json) : Prop where
  status : ∃ status, alert.get? "status" = some (.str status)
  labels : ∃ labels, alert.get? "labels" = some labels ∧ StringLabels labels
  annotations : ∃ annotations, alert.get? "annotations" = some annotations ∧
    StringLabels annotations
  startsAt : ∃ startsAt, alert.get? "startsAt" = some (.str startsAt)

/-- A payload as Alertmanager posts it: an object with a list of alerts. -/
def WellFormed (req : Request) : Prop :=
  req.path = "/webhook" ∧ ∃ payload alerts, req.body = .value payload ∧
    payload.get? "alerts" = some (.arr alerts) ∧ ∀ alert ∈ alerts, WellFormedAlert alert

/-- A well-formed alert has strings for labels. -/
theorem WellFormedAlert.stringLabels {alert : Json} (h : WellFormedAlert alert) :
    StringLabels (alertLabels alert) := by
  obtain ⟨labels, hlabels, hstrings⟩ := h.labels
  simpa [alertLabels, hlabels] using hstrings

/-- A well-formed alert raises nothing before its handler. -/
theorem WellFormedAlert.not_raisesEarly {alert : Json} (h : WellFormedAlert alert) :
    raisesEarly alert = false := by
  obtain ⟨items, -, hitems⟩ := h.stringLabels
  cases alert with
  | obj fields => simp [raisesEarly, hitems]
  | _ =>
      obtain ⟨status, hstatus⟩ := h.status
      cases hstatus

/-- A well-formed alert has an object of annotations. -/
theorem WellFormedAlert.annotations_obj {alert : Json} (h : WellFormedAlert alert) :
    ∃ fields, alertAnnotations alert = .obj fields := by
  obtain ⟨annotations, hannotations, items, -, rfl⟩ := h.annotations
  exact ⟨_, by rw [alertAnnotations, hannotations]; rfl⟩

/-- Each alert of a well-formed request is well formed. -/
theorem WellFormed.turns {req : Request} (h : WellFormed req) :
    ∀ turn ∈ req.turns, WellFormedAlert turn.1 := by
  obtain ⟨hpath, payload, alerts, hbody, halerts, hwf⟩ := h
  have hlist : requestAlerts req.path req.body = alerts := by
    cases payload with
    | obj fields =>
        have hlookup : fields.lookup "alerts" = some (.arr alerts) := halerts
        simp [requestAlerts, hpath, hbody, payloadAlerts, Json.dictGet, hlookup]
    | _ => cases halerts
  intro turn hturn
  rw [Request.turns, hlist, withAnswers, List.mem_mapIdx] at hturn
  obtain ⟨i, hi, rfl⟩ := hturn
  exact hwf _ (List.getElem_mem hi)

/-! ## The dictionary and the log of executions -/

/-- The key of an execution in `_recent`. -/
def Execution.key (library : Library) (x : Execution) : String :=
  library.digest (sortKeys x.labels)

/-- What holds of the server when the clock stands at `now`; `seen` are the label sets of
the run. -/
structure Deduped (cfg : Config) (seen : Json → Prop) (now : ℚ) (s : Server) : Prop where
  past : ∀ x ∈ s.executions, x.time ≤ now
  spaced : Spaced (Execution.key cfg.library) Execution.time cooldownSeconds s.executions
  covers : Covers (Execution.key cfg.library) Execution.time s.recent s.executions
  witnessed : Witnessed (Execution.key cfg.library) Execution.time s.recent s.executions
  labels_seen : ∀ x ∈ s.executions, seen x.labels

/-- The turn leads to an execution as soon as the alert is let through. -/
def executesIfAllowed (cfg : Config) (turn : Json × Answers) : Prop :=
  firing turn.1 = true → hasHandler cfg turn.1 turn.2 → executes cfg turn.1 turn.2 = true

/-- What is deduped now is deduped later. -/
theorem Deduped.later {cfg : Config} {seen : Json → Prop} {now later : ℚ} {s : Server}
    (h : Deduped cfg seen now s) (hle : now ≤ later) : Deduped cfg seen later s where
  past := fun x hx => le_trans (h.past x hx) hle
  spaced := h.spaced
  covers := h.covers
  witnessed := h.witnessed
  labels_seen := h.labels_seen

/-- An alert is let through when `COOLDOWN_SECONDS` have passed since the time noted for
its fingerprint. -/
theorem allowed_some {recent recent' : String → Option ℚ} {fingerprint : String} {now : ℚ}
    (h : allowed recent fingerprint now = some recent') :
    recent' = Function.update recent fingerprint (some now) ∧
      ∀ last, recent fingerprint = some last → last + cooldownSeconds ≤ now := by
  unfold allowed at h
  by_cases hcool : now - (recent fingerprint).getD 0 < cooldownSeconds
  · simp [hcool] at h
  · simp only [hcool, if_false, Option.some.injEq] at h
    refine ⟨h.symm, ?_⟩
    intro last hlast
    rw [hlast, Option.getD_some] at hcool
    linarith

/-- Past the first `COOLDOWN_SECONDS` of the clock, an alert is held back only by a time
noted for its fingerprint. -/
theorem allowed_none {recent : String → Option ℚ} {fingerprint : String} {now : ℚ}
    (hclock : cooldownSeconds ≤ now) (h : allowed recent fingerprint now = none) :
    ∃ last, recent fingerprint = some last ∧ now < last + cooldownSeconds := by
  unfold allowed at h
  by_cases hcool : now - (recent fingerprint).getD 0 < cooldownSeconds
  · cases hlast : recent fingerprint with
    | none =>
        rw [hlast, Option.getD_none] at hcool
        linarith
    | some last =>
        rw [hlast, Option.getD_some] at hcool
        exact ⟨last, rfl, by linarith⟩
  · simp [hcool] at h

/-- **One turn of the loop.** -/
theorem deduped_turn {cfg : Config} {seen : Json → Prop} {now : ℚ} {s : Server} {alert : Json}
    {ans : Answers} (h : Deduped cfg seen now s) (hclock : now ≤ ans.now)
    (hexecutes : executesIfAllowed cfg (alert, ans)) (hseen : seen (alertLabels alert)) :
    Deduped cfg seen ans.now (handleAlert cfg s alert ans).1 := by
  rcases handleAlert_cases cfg s alert ans with
    hsame | ⟨hfiring, hhandler, recent, hallowed, hturn⟩
  · rw [hsame]
    exact h.later hclock
  · have hruns := hexecutes hfiring hhandler
    obtain ⟨hrecent, hwait⟩ := allowed_some hallowed
    have hkey : (execution cfg alert ans).key cfg.library = makeFingerprint cfg.library alert := rfl
    have hpast : ∀ x ∈ s.executions, x.time ≤ ans.now := fun x hx =>
      le_trans (h.past x hx) hclock
    rw [hturn, if_pos hruns, hrecent]
    refine ⟨?_, ?_, ?_, ?_, ?_⟩
    · intro x hx
      rcases List.mem_append.mp hx with hx | hx
      · exact hpast x hx
      · obtain rfl := List.mem_singleton.mp hx
        exact le_refl _
    · exact h.spaced.snoc h.covers hwait
    · exact h.covers.snoc (e := execution cfg alert ans) hpast (le_refl _)
    · exact h.witnessed.snoc (execution cfg alert ans)
    · intro x hx
      rcases List.mem_append.mp hx with hx | hx
      · exact h.labels_seen x hx
      · obtain rfl := List.mem_singleton.mp hx
        exact hseen

/-! ## Whole runs -/

/-- A turn of the loop, as a step of the server. -/
def turnStep (cfg : Config) (s : Server) (turn : Json × Answers) : Server :=
  (handleAlert cfg s turn.1 turn.2).1

/-- The reading of the clock during a turn. -/
def turnReadings (turn : Json × Answers) : List ℚ := [turn.2.now]

def Request.readings (req : Request) : List ℚ := req.turns.flatMap turnReadings

/-- Nothing disturbs the handling of a request: no lookup for a firing alert lets an
`OSError` pass, `subprocess.run` takes the variables of every alert with a handler and can
start its process, and the scripts are really run. -/
def Undisturbed (cfg : Config) (req : Request) : Prop :=
  cfg.dryRun = false ∧ ∀ turn ∈ req.turns, firing turn.1 = true →
    turn.2.lookup (scriptPath cfg turn.1) ≠ .osError ∧
      (hasHandler cfg turn.1 turn.2 →
        runs cfg.library turn.1 = true ∧ turn.2.spawns = true)

instance (cfg : Config) (req : Request) : Decidable (Undisturbed cfg req) :=
  inferInstanceAs (Decidable (_ ∧ _))

/-- The requests, and the turns of the request in progress, before the loop comes to an
alert. -/
def TurnOf (requests before : List Request) (pre : List (Json × Answers)) (alert : Json)
    (ans : Answers) : Prop :=
  ∃ req after post, requests = before ++ req :: after ∧ req.turns = pre ++ (alert, ans) :: post

/-- The server when the loop comes to an alert, unless something was raised before. -/
def serverAt (cfg : Config) (before : List Request) (pre : List (Json × Answers)) :
    Server × Option PyError :=
  handleAlerts cfg pre (before.foldl (serve cfg) newServer)

/-- Executions for one label set are spaced; an alert which is not firing executes
nothing; and the loop gets to each firing alert with a handler and executes it, unless its
label set was executed less than `COOLDOWN_SECONDS` before. -/
structure Dedupes (cfg : Config) (requests : List Request) : Prop where
  spaced : (requests.foldl (serve cfg) newServer).executions.Pairwise
    (fun x y => SameLabels x.labels y.labels → x.time + cooldownSeconds ≤ y.time)
  quiet : ∀ before pre alert ans, TurnOf requests before pre alert ans →
    firing alert = false →
      (handleAlert cfg (serverAt cfg before pre).1 alert ans).1.executions =
        (serverAt cfg before pre).1.executions
  prompt : ∀ before pre alert ans, TurnOf requests before pre alert ans →
    firing alert = true → hasHandler cfg alert ans →
      ((serverAt cfg before pre).2 = none ∧
        (handleAlert cfg (serverAt cfg before pre).1 alert ans).1.executions =
          (serverAt cfg before pre).1.executions ++ [execution cfg alert ans]) ∨
      ∃ x ∈ (serverAt cfg before pre).1.executions,
        SameLabels x.labels (alertLabels alert) ∧ ans.now < x.time + cooldownSeconds

/-- The label sets of a run. -/
def Seen (requests : List Request) (labels : Json) : Prop :=
  ∃ req ∈ requests, ∃ turn ∈ req.turns, alertLabels turn.1 = labels

/-- Label sets of the run with one fingerprint are the same. -/
def NoCollision (library : Library) (requests : List Request) : Prop :=
  ∀ a b, Seen requests a → Seen requests b →
    library.digest (sortKeys a) = library.digest (sortKeys b) → SameLabels a b

/-- The loop of an undisturbed request goes through all its alerts. -/
theorem handleAlerts_undisturbed {cfg : Config} (turns : List (Json × Answers))
    (h : ∀ turn ∈ turns, WellFormedAlert turn.1 ∧
      (firing turn.1 = true → turn.2.lookup (scriptPath cfg turn.1) ≠ .osError))
    (s : Server) : handleAlerts cfg turns s = (turns.foldl (turnStep cfg) s, none) := by
  induction turns generalizing s with
  | nil => rfl
  | cons turn turns ih =>
      obtain ⟨alert, ans⟩ := turn
      obtain ⟨hwf, hlookup⟩ := h (alert, ans) List.mem_cons_self
      have hquiet : (handleAlert cfg s alert ans).2 = none :=
        handleAlert_quiet hwf.not_raisesEarly (fun _ => hwf.annotations_obj) hlookup s
      have hrest := ih (fun turn hturn => h turn (List.mem_cons_of_mem _ hturn))
      rw [handleAlerts, List.foldl_cons]
      cases hturn : handleAlert cfg s alert ans with
      | mk next exc =>
          rw [hturn] at hquiet
          simp only at hquiet
          rw [hquiet, turnStep, hturn]
          exact hrest next

/-- Being deduped depends on the memo and the executions only. -/
theorem Deduped.congr {cfg : Config} {seen : Json → Prop} {now : ℚ} {s s' : Server}
    (h : Deduped cfg seen now s) (hrecent : s'.recent = s.recent)
    (hexecutions : s'.executions = s.executions) : Deduped cfg seen now s' := by
  refine ⟨?_, ?_, ?_, ?_, ?_⟩
  · rw [hexecutions]
    exact h.past
  · rw [hexecutions]
    exact h.spaced
  · rw [hexecutions, hrecent]
    exact h.covers
  · rw [hexecutions, hrecent]
    exact h.witnessed
  · rw [hexecutions]
    exact h.labels_seen

/-- The turns of a loop in which nothing is raised. -/
theorem deduped_turns {cfg : Config} {seen : Json → Prop} (turns : List (Json × Answers))
    (hturns : ∀ turn ∈ turns, executesIfAllowed cfg turn ∧ seen (alertLabels turn.1))
    {now : ℚ} {s : Server} (h : Deduped cfg seen now s)
    (hclock : (now :: turns.flatMap turnReadings).Pairwise (· ≤ ·)) :
    Deduped cfg seen ((turns.flatMap turnReadings).getLastD now)
      (turns.foldl (turnStep cfg) s) := by
  refine GuardedRuns.clocked_invariant_of ?_ h hturns hclock
  intro now s turn hturn h hnow
  have hle : now ≤ turn.2.now := (List.pairwise_cons.mp hnow).1 _ List.mem_cons_self
  exact deduped_turn h hle hturn.1 hturn.2

/-- What the turns of a request of the run meet. -/
theorem turns_of_run {cfg : Config} {requests : List Request}
    (hund : ∀ req ∈ requests, Undisturbed cfg req) {req : Request} (hreq : req ∈ requests) :
    ∀ turn ∈ req.turns, executesIfAllowed cfg turn ∧ Seen requests (alertLabels turn.1) := by
  intro turn hturn
  obtain ⟨hlive, hlookups⟩ := hund req hreq
  refine ⟨?_, req, hreq, turn, hturn, rfl⟩
  intro hfiring hhandler
  exact executes_iff.mpr ⟨hlive, (hlookups turn hturn hfiring).2 hhandler⟩

section Run

variable {cfg : Config} {requests : List Request}
  (hwf : ∀ req ∈ requests, WellFormed req) (hund : ∀ req ∈ requests, Undisturbed cfg req)
include hwf hund

/-- A well-formed request is handled alert by alert. -/
theorem loop_of_run {req : Request} (hreq : req ∈ requests) (turns : List (Json × Answers))
    (hsub : ∀ turn ∈ turns, turn ∈ req.turns) (s : Server) :
    handleAlerts cfg turns s = (turns.foldl (turnStep cfg) s, none) := by
  apply handleAlerts_undisturbed
  intro turn hturn
  have hmem := hsub turn hturn
  exact ⟨(hwf req hreq).turns turn hmem, fun hfiring => ((hund req hreq).2 turn hmem hfiring).1⟩

/-- **The first requests of a run.** -/
theorem deduped_before (before : List Request) (hsub : ∀ req ∈ before, req ∈ requests)
    (hclock : (cooldownSeconds :: before.flatMap Request.readings).Pairwise (· ≤ ·)) :
    Deduped cfg (Seen requests) ((before.flatMap Request.readings).getLastD cooldownSeconds)
      (before.foldl (serve cfg) newServer) := by
  have hnew : Deduped cfg (Seen requests) cooldownSeconds newServer := by
    refine ⟨?_, spaced_nil, covers_nil _, ?_, ?_⟩
    · intro x hx
      cases hx
    · intro k r hr
      cases hr
    · intro x hx
      cases hx
  refine GuardedRuns.clocked_invariant_of ?_ hnew hsub hclock
  intro now s req hreq h hnow
  have hturns := deduped_turns req.turns (turns_of_run hund hreq) h hnow
  have hloop := loop_of_run hwf hund hreq req.turns (fun turn hturn => hturn) s
  obtain ⟨hrecent, hexecutions⟩ := serve_turns cfg s req
  rw [hloop] at hrecent hexecutions
  exact hturns.congr hrecent hexecutions

/-- **The server when the loop comes to an alert.** -/
theorem deduped_at {before : List Request} {pre : List (Json × Answers)} {alert : Json}
    {ans : Answers} (hturn : TurnOf requests before pre alert ans)
    (hclock : (cooldownSeconds :: requests.flatMap Request.readings).Pairwise (· ≤ ·)) :
    (serverAt cfg before pre).2 = none ∧ cooldownSeconds ≤ ans.now ∧
      ∃ now, Deduped cfg (Seen requests) now (serverAt cfg before pre).1 := by
  obtain ⟨req, after, post, hrequests, hturns⟩ := hturn
  have hreq : req ∈ requests := by
    rw [hrequests]
    simp
  have hloop := loop_of_run hwf hund hreq pre
    (fun turn hturn => by rw [hturns]; exact List.mem_append_left _ hturn)
    (before.foldl (serve cfg) newServer)
  have hreadings : requests.flatMap Request.readings =
      before.flatMap Request.readings ++ (pre.flatMap turnReadings ++
        (ans.now :: (post.flatMap turnReadings ++ after.flatMap Request.readings))) := by
    rw [hrequests]
    simp [Request.readings, hturns, turnReadings]
  rw [hreadings] at hclock
  have hbefore := deduped_before hwf hund before
    (fun r hr => by rw [hrequests]; exact List.mem_append_left _ hr)
    (hclock.sublist (by simp))
  have hafter := GuardedRuns.pairwise_after_last hclock
  have hpre := deduped_turns pre
    (fun turn hturn => turns_of_run hund hreq turn
      (by rw [hturns]; exact List.mem_append_left _ hturn))
    hbefore (hafter.sublist (by simp))
  unfold serverAt
  rw [hloop]
  exact ⟨rfl, (List.pairwise_cons.mp hclock).1 _ (by simp), _, hpre⟩

end Run

/-- **Duplicate suppression.**  In a run of well-formed payloads on a nondecreasing clock
past `COOLDOWN_SECONDS`, whose label sets have different fingerprints and whose handling
nothing disturbs, executions for one label set are spaced, alerts which are not firing
execute nothing, and a firing alert with a handler is executed unless its label set was
within the cooldown. -/
theorem dedupes_of_undisturbed (cfg : Config) (requests : List Request)
    (hwf : ∀ req ∈ requests, WellFormed req)
    (hclock : (cooldownSeconds :: requests.flatMap Request.readings).Pairwise (· ≤ ·))
    (hdigest : NoCollision cfg.library requests)
    (hund : ∀ req ∈ requests, Undisturbed cfg req) : Dedupes cfg requests := by
  refine ⟨?_, ?_, ?_⟩
  · have hrun := deduped_before hwf hund requests (fun _ hreq => hreq) hclock
    have hstrings : ∀ x ∈ (requests.foldl (serve cfg) newServer).executions,
        StringLabels x.labels := by
      intro x hx
      obtain ⟨req, hreq, turn, hturn, hlabels⟩ := hrun.labels_seen x hx
      rw [← hlabels]
      exact ((hwf req hreq).turns turn hturn).stringLabels
    apply hrun.spaced.imp_of_mem
    intro x y hx hy hgap hsame
    apply hgap
    unfold Execution.key
    rw [sortKeys_eq_of_sameLabels (hstrings x hx) (hstrings y hy) hsame]
  · intro before pre alert ans hturn hfiring
    rcases handleAlert_cases cfg (serverAt cfg before pre).1 alert ans with
      hsame | ⟨hfires, -⟩
    · rw [hsame]
    · rw [hfiring] at hfires
      cases hfires
  · intro before pre alert ans hturn hfiring hhandler
    obtain ⟨hreached, hpast, now, h⟩ := deduped_at hwf hund hturn hclock
    obtain ⟨req, after, post, hrequests, hturns⟩ := hturn
    have hreq : req ∈ requests := by
      rw [hrequests]
      simp
    have hmem : (alert, ans) ∈ req.turns := by
      rw [hturns]
      simp
    have hearly := ((hwf req hreq).turns _ hmem).not_raisesEarly
    obtain ⟨hlive, hlookups⟩ := hund req hreq
    have hruns : executes cfg alert ans = true :=
      executes_iff.mpr ⟨hlive, (hlookups _ hmem hfiring).2 hhandler⟩
    have hstep := handleAlert_handler hearly hfiring hhandler (serverAt cfg before pre).1
    cases hallowed : allowed (serverAt cfg before pre).1.recent
        (makeFingerprint cfg.library alert) ans.now with
    | none =>
        right
        obtain ⟨last, hlast, hlt⟩ := allowed_none hpast hallowed
        obtain ⟨x, hx, hkey, htime⟩ := h.witnessed _ last hlast
        refine ⟨x, hx, ?_, htime ▸ hlt⟩
        exact hdigest _ _ (h.labels_seen x hx) ⟨req, hreq, _, hmem, rfl⟩ hkey
    | some recent =>
        left
        refine ⟨hreached, ?_⟩
        rw [hstep, hallowed]
        simp [hruns]

/-! ## Runs on a handlers directory -/

/-- A firing alert as Alertmanager sends it. -/
def firingAlert (labels : List (String × String)) : Json :=
  .obj [("status", .str "firing"), ("labels", .obj (labels.map fun l => (l.1, .str l.2))),
    ("annotations", .obj []), ("startsAt", .str "2026-06-18T00:00:00Z")]

/-- The labels of a firing alert. -/
theorem alertLabels_firingAlert (labels : List (String × String)) :
    alertLabels (firingAlert labels) = .obj (labels.map fun l => (l.1, .str l.2)) := rfl

/-- A firing alert with distinct label names is well formed. -/
theorem wellFormedAlert_firingAlert {labels : List (String × String)}
    (hnames : (labels.map Prod.fst).Nodup) : WellFormedAlert (firingAlert labels) where
  status := ⟨"firing", rfl⟩
  labels := ⟨_, rfl, labels, hnames, rfl⟩
  annotations := ⟨_, rfl, [], List.nodup_nil, rfl⟩
  startsAt := ⟨"2026-06-18T00:00:00Z", rfl⟩

/-- A file system whose one handler is `edac-ce-storm.sh`, and in which a name has 255
bytes at most. -/
def stormHandler (p : PosixPaths.PosixPath) : Lookup :=
  if p.parts.any (fun part => 255 < (part.map Char.utf8Size).sum) then .osError
  else if p.parts = ["app", "recovery", "handlers", "edac-ce-storm.sh"].map String.toList then
    .present
  else .absent

/-- A payload with these alerts, handled at the time `t`. -/
def payloadAt (t : ℚ) (labelSets : List (List (String × String))) : Request where
  path := "/webhook"
  body := .value (.obj [("alerts", .arr (labelSets.map firingAlert))])
  answers := fun _ => { lookup := stormHandler, now := t, spawns := true }

/-- A payload of such alerts is well formed. -/
theorem wellFormed_payloadAt (t : ℚ) {labelSets : List (List (String × String))}
    (h : ∀ labels ∈ labelSets, (labels.map Prod.fst).Nodup) :
    WellFormed (payloadAt t labelSets) := by
  refine ⟨rfl, _, labelSets.map firingAlert, rfl, rfl, ?_⟩
  intro alert halert
  obtain ⟨labels, hlabels, rfl⟩ := List.mem_map.mp halert
  exact wellFormedAlert_firingAlert (h labels hlabels)

/-- The label sets of such a payload. -/
theorem labels_payloadAt {t : ℚ} {labelSets : List (List (String × String))}
    {turn : Json × Answers} (h : turn ∈ (payloadAt t labelSets).turns) :
    ∃ labels ∈ labelSets, alertLabels turn.1 = .obj (labels.map fun l => (l.1, .str l.2)) := by
  have hturns : (payloadAt t labelSets).turns =
      withAnswers (payloadAt t labelSets).answers (labelSets.map firingAlert) := rfl
  rw [hturns, withAnswers, List.mem_mapIdx] at h
  obtain ⟨i, hi, rfl⟩ := h
  have hindex : i < labelSets.length := by simpa using hi
  exact ⟨labelSets[i], List.getElem_mem hindex, by simp [alertLabels_firingAlert]⟩

def stormLabels : List (String × String) := [("alertname", "edac-ce-storm"), ("node", "node-1")]

/-- The digest is that of `stormLabels`. -/
def stormConfig : Config where
  handlersDir := PosixPaths.parse "/app/recovery/handlers".toList
  dryRun := false
  library :=
    { str := fun _ => "", upper := String.toUpper, digest := fun _ => "b0cdc0da6456f605" }

/-- One label set three times, the second time in another order. -/
def stormRun : List Request :=
  [payloadAt 1000 [stormLabels], payloadAt 1100 [stormLabels.reverse],
    payloadAt 1300 [stormLabels]]

/-- No two alerts of the storm share a fingerprint. -/
theorem noCollision_stormRun : NoCollision stormConfig.library stormRun := by
  have hlabels : ∀ a, Seen stormRun a →
      SameLabels a (.obj (stormLabels.map fun l => (l.1, .str l.2))) := by
    rintro a ⟨req, hreq, turn, hturn, rfl⟩
    have hsets : ∃ t, ∃ labels ∈ [stormLabels, stormLabels.reverse],
        req = payloadAt t [labels] := by
      simp only [stormRun, List.mem_cons, List.not_mem_nil, or_false] at hreq
      rcases hreq with rfl | rfl | rfl
      · exact ⟨1000, stormLabels, by simp, rfl⟩
      · exact ⟨1100, stormLabels.reverse, by simp, rfl⟩
      · exact ⟨1300, stormLabels, by simp, rfl⟩
    obtain ⟨t, labels, hset, rfl⟩ := hsets
    obtain ⟨labels', hlabels', heq⟩ := labels_payloadAt hturn
    obtain rfl := List.mem_singleton.mp hlabels'
    rw [heq]
    apply List.Perm.map
    simp only [List.mem_cons, List.not_mem_nil, or_false] at hset
    rcases hset with rfl | rfl
    · exact List.Perm.refl _
    · exact List.reverse_perm _
  intro a b ha hb _
  exact (hlabels a ha).trans (hlabels b hb).symm

/-- Of the storm the handler runs at the first time and after the window. -/
theorem dedupes_stormRun :
    (stormRun.foldl (serve stormConfig) newServer).executions.map Execution.time = [1000, 1300] ∧
      Dedupes stormConfig stormRun := by
  refine ⟨by decide +kernel, dedupes_of_undisturbed stormConfig stormRun ?_ (by decide +kernel)
    noCollision_stormRun (by decide +kernel)⟩
  intro req hreq
  simp only [stormRun, List.mem_cons, List.not_mem_nil, or_false] at hreq
  rcases hreq with rfl | rfl | rfl
  · exact wellFormed_payloadAt _ (by decide)
  · exact wellFormed_payloadAt _ (by decide)
  · exact wellFormed_payloadAt _ (by decide)

def longLabels : List (String × String) :=
  [("alertname", String.ofList (List.replicate 300 'a'))]

/-- The digests are those of `longLabels` and `stormLabels`. -/
def longNameConfig : Config where
  handlersDir := PosixPaths.parse "/app/recovery/handlers".toList
  dryRun := false
  library :=
    { str := fun _ => ""
      upper := String.toUpper
      digest := fun j =>
        if j.fields.length = 1 then "84281aa69a5855a4" else "b0cdc0da6456f605" }

/-- One payload with two alerts, the first under a name too long for a file. -/
def longNameRequest : Request := payloadAt 1000 [longLabels, stormLabels]

/-- The alerts with long names do not share a fingerprint. -/
theorem noCollision_longNameRequest :
    NoCollision longNameConfig.library [longNameRequest] := by
  have hlabels : ∀ a, Seen [longNameRequest] a → ∃ labels ∈ [longLabels, stormLabels],
      a = .obj (labels.map fun l => (l.1, .str l.2)) := by
    rintro a ⟨req, hreq, turn, hturn, rfl⟩
    obtain rfl := List.mem_singleton.mp hreq
    exact labels_payloadAt hturn
  -- the sorted labels have as many items as the labels
  have hdigest : ∀ labels : List (String × String), longNameConfig.library.digest
      (sortKeys (.obj (labels.map fun l => (l.1, .str l.2)))) =
        if labels.length = 1 then "84281aa69a5855a4" else "b0cdc0da6456f605" := by
    intro labels
    have hlength : (sortKeys (.obj (labels.map fun l => (l.1, .str l.2)))).fields.length =
        labels.length := by
      rw [sortKeys_strings, Json.fields_obj, (sortItems_perm _).length_eq, List.length_map]
    simp [longNameConfig, hlength]
  intro a b ha hb hsame
  obtain ⟨as, has, rfl⟩ := hlabels a ha
  obtain ⟨bs, hbs, rfl⟩ := hlabels b hb
  rw [hdigest, hdigest] at hsame
  simp only [List.mem_cons, List.not_mem_nil, or_false] at has hbs
  rcases has with rfl | rfl <;> rcases hbs with rfl | rfl
  · exact List.Perm.refl _
  · exact absurd hsame (by decide)
  · exact absurd hsame (by decide)
  · exact List.Perm.refl _

/-- The lookup for the long name raises. -/
theorem handleAlert_longName (s : Server) :
    handleAlert longNameConfig s (firingAlert longLabels) ⟨stormHandler, 1000, true⟩ =
      (s, some .osError) := by
  have hname : scriptName longNameConfig.library (alertName (firingAlert longLabels)) =
      List.replicate 300 'a' ++ ['.', 's', 'h'] := by
    have hstring : pyStr longNameConfig.library (alertName (firingAlert longLabels)) =
        String.ofList (List.replicate 300 'a') := rfl
    rw [scriptName, hstring, String.toList_ofList]
  have hnul : '\x00' ∉ scriptName longNameConfig.library (alertName (firingAlert longLabels)) := by
    rw [hname]
    decide +kernel
  have hlookup : (⟨stormHandler, 1000, true⟩ : Answers).lookup
      (scriptPath longNameConfig (firingAlert longLabels)) = .osError := by
    rw [scriptPath, hname]
    decide +kernel
  exact handleAlert_osError rfl rfl hnul hlookup s

/-- The handler of the second alert is not executed. -/
theorem storm_behind_long_name_ignored :
    WellFormed longNameRequest ∧
      (cooldownSeconds :: longNameRequest.readings).Pairwise (· ≤ ·) ∧
      NoCollision longNameConfig.library [longNameRequest] ∧
      (serve longNameConfig newServer longNameRequest).executions.length = 0 ∧
      ¬ Dedupes longNameConfig [longNameRequest] := by
  have hturns : longNameRequest.turns = [(firingAlert longLabels, ⟨stormHandler, 1000, true⟩),
      (firingAlert stormLabels, ⟨stormHandler, 1000, true⟩)] := rfl
  have hleft := fun rest => handleAlerts_raised (handleAlert_longName newServer) rest
  have hstorm : TurnOf [longNameRequest] [] [(firingAlert longLabels, ⟨stormHandler, 1000, true⟩)]
      (firingAlert stormLabels) ⟨stormHandler, 1000, true⟩ :=
    ⟨longNameRequest, [], [], rfl, hturns⟩
  have hat : serverAt longNameConfig [] [(firingAlert longLabels, ⟨stormHandler, 1000, true⟩)] =
      (newServer, some .osError) := hleft []
  refine ⟨wellFormed_payloadAt _ (by decide), by decide +kernel, noCollision_longNameRequest, ?_,
    ?_⟩
  · rw [(serve_turns longNameConfig newServer longNameRequest).2, hturns, hleft]
    rfl
  · intro h
    rcases h.prompt _ _ _ _ hstorm rfl (by decide +kernel) with ⟨hreached, -⟩ | ⟨x, hx, -⟩
    · rw [hat] at hreached
      cases hreached
    · rw [hat] at hx
      cases hx

end FaultOracle.Recovery
