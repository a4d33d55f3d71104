import FaultOracle.GuardedRuns
import FaultOracle.RecoveryWebhook

/-!
# Which scripts the recovery webhook runs

The script of an alert is looked up at the handlers directory joined with the
`alertname` and `.sh`.  Without a `/` in the name that is a file of the directory
itself; with one it is the path which the name spells, in a directory below, above or
anywhere.  So the scripts a request can make the server run are confined to the
directory exactly when no alert that the loop can reach has such a name.
-/

namespace FaultOracle.Recovery

open JsonValues PosixPaths

/-- Every script that was run is the file `<alertname>.sh` of the handlers directory. -/
def Confined (cfg : Config) (s : Server) : Prop :=
  ∀ x ∈ s.executions,
    IsChild cfg.handlersDir (x.alertname.toList ++ ['.', 's', 'h']) x.script

/-- The alert can make the server run a script under a name with a `/` in it. -/
def escapes (cfg : Config) (alert : Json) : Bool :=
  firing alert && runs cfg.library alert &&
    !(scriptName cfg.library (alertName alert)).contains '\x00' &&
    (scriptName cfg.library (alertName alert)).contains '/'

/-- The alerts of a request up to the first that raises. -/
def reachable (path : String) (body : Body) : List Json :=
  (requestAlerts path body).takeWhile (fun alert => !raisesEarly alert)

/-- No alert the loop can reach has such a name; a dry run executes nothing. -/
def confinedRequest (cfg : Config) (path : String) (body : Body) : Prop :=
  cfg.dryRun = true ∨ ∀ alert ∈ reachable path body, escapes cfg alert = false

/-- The execution of an alert is that of a file of the directory exactly when its name
has no `/`. -/
theorem isChild_execution_iff (cfg : Config) (alert : Json) (ans : Answers) :
    IsChild cfg.handlersDir ((execution cfg alert ans).alertname.toList ++ ['.', 's', 'h'])
        (execution cfg alert ans).script ↔
      '/' ∉ scriptName cfg.library (alertName alert) := by
  apply isChild_join_iff
  · intro h
    simp at h
  · intro h
    have hlength := congrArg List.length h
    simp at hlength

/-- One turn keeps the scripts confined unless its alert escapes. -/
theorem confined_turn {cfg : Config} {alert : Json}
    (h : cfg.dryRun = true ∨ escapes cfg alert = false) (ans : Answers) {s : Server}
    (hs : Confined cfg s) : Confined cfg (handleAlert cfg s alert ans).1 := by
  rcases handleAlert_cases cfg s alert ans with
    hsame | ⟨hfiring, hhandler, recent, -, hturn⟩
  · rw [hsame]
    exact hs
  · rw [hturn]
    intro x hx
    cases hrun : executes cfg alert ans with
    | false =>
        simp only [hrun, Bool.false_eq_true, if_false] at hx
        exact hs x hx
    | true =>
        simp only [hrun, if_true] at hx
        rcases List.mem_append.mp hx with hx | hx
        · exact hs x hx
        · obtain rfl := List.mem_singleton.mp hx
          obtain ⟨hlive, hruns, -⟩ := executes_iff.mp hrun
          rw [isChild_execution_iff]
          intro hslash
          rcases h with hdry | hescapes
          · rw [hlive] at hdry
            cases hdry
          · simp [escapes, hfiring, hruns, hhandler.1, hslash] at hescapes

/-- The loop keeps the scripts confined unless it reaches an alert that escapes. -/
theorem confined_loop {cfg : Config} (turns : List (Json × Answers))
    (h : cfg.dryRun = true ∨
      ∀ alert ∈ (turns.map Prod.fst).takeWhile (fun alert => !raisesEarly alert),
        escapes cfg alert = false)
    {s : Server} (hs : Confined cfg s) : Confined cfg (handleAlerts cfg turns s).1 := by
  induction turns generalizing s with
  | nil => exact hs
  | cons turn turns ih =>
      obtain ⟨alert, ans⟩ := turn
      cases hearly : raisesEarly alert with
      | true =>
          rw [handleAlerts, handleAlert_raisesEarly hearly]
          exact hs
      | false =>
          simp only [List.map_cons, List.takeWhile_cons, hearly, Bool.not_false, if_true,
            List.mem_cons, forall_eq_or_imp] at h
          have hhere : Confined cfg (handleAlert cfg s alert ans).1 :=
            confined_turn (h.imp_right And.left) ans hs
          rw [handleAlerts]
          cases hturn : handleAlert cfg s alert ans with
          | mk after exc =>
              rw [hturn] at hhere
              cases exc with
              | some exc => exact hhere
              | none => exact ih (h.imp_right And.right) hhere

theorem alerts_of_turns (answers : Nat → Answers) (alerts : List Json) :
    (withAnswers answers alerts).map Prod.fst = alerts := by
  apply List.ext_getElem
  · simp [withAnswers]
  · simp [withAnswers]

/-! ## An alert that escapes -/

theorem executions_subset_turn (cfg : Config) (s : Server) (alert : Json) (ans : Answers) :
    s.executions ⊆ (handleAlert cfg s alert ans).1.executions := by
  rcases handleAlert_cases cfg s alert ans with hsame | ⟨-, -, recent, -, hturn⟩
  · rw [hsame]
    exact List.Subset.refl _
  · rw [hturn]
    cases executes cfg alert ans <;> simp

/-- What was run stays in the record. -/
theorem executions_subset_loop (cfg : Config) (turns : List (Json × Answers)) (s : Server) :
    s.executions ⊆ (handleAlerts cfg turns s).1.executions := by
  induction turns generalizing s with
  | nil => exact List.Subset.refl _
  | cons turn turns ih =>
      obtain ⟨alert, ans⟩ := turn
      have hhere := executions_subset_turn cfg s alert ans
      rw [handleAlerts]
      cases hturn : handleAlert cfg s alert ans with
      | mk after exc =>
          rw [hturn] at hhere
          cases exc with
          | some exc => exact hhere
          | none => exact fun x hx => ih after (hhere hx)

theorem executions_of_first_turn (cfg : Config) (turns : List (Json × Answers)) (s : Server)
    (alert : Json) (ans : Answers) :
    (handleAlert cfg s alert ans).1.executions ⊆
      (handleAlerts cfg ((alert, ans) :: turns) s).1.executions := by
  rw [handleAlerts]
  cases handleAlert cfg s alert ans with
  | mk after exc =>
      cases exc with
      | some exc => exact List.Subset.refl _
      | none => exact executions_subset_loop cfg turns after

/-- The world in which the file of an alert is there and a process starts, on a clock past
the cooldown. -/
def found : Answers where
  lookup := fun _ => .present
  now := cooldownSeconds
  spawns := true

/-- The world in which it is not. -/
def missing : Answers where
  lookup := fun _ => .absent
  now := cooldownSeconds
  spawns := true

theorem handleAlert_missing {alert : Json} (hearly : raisesEarly alert = false) (cfg : Config)
    (s : Server) : handleAlert cfg s alert missing = (s, none) := by
  cases hfiring : firing alert with
  | false => exact handleAlert_not_firing hearly hfiring cfg s missing
  | true =>
      have hpath : handlerPath cfg missing (alertName alert) = .ok none := by
        simp [handlerPath, missing]
      rw [handleAlert_firing hearly hfiring, hpath]

/-- In a world where its file is found, an alert that escapes is executed. -/
theorem escape_executed {cfg : Config} (hlive : cfg.dryRun = false) {alert : Json}
    (hearly : raisesEarly alert = false) (hescapes : escapes cfg alert = true) :
    execution cfg alert found ∈ (handleAlert cfg newServer alert found).1.executions ∧
      '/' ∈ scriptName cfg.library (alertName alert) := by
  simp only [escapes, Bool.and_eq_true, Bool.not_eq_true', List.contains_iff_mem] at hescapes
  obtain ⟨⟨⟨hfiring, hruns⟩, hnul⟩, hslash⟩ := hescapes
  have hhandler : hasHandler cfg alert found := by
    refine ⟨?_, rfl⟩
    intro hmem
    rw [List.contains_iff_mem.mpr hmem] at hnul
    cases hnul
  have hallowed : allowed newServer.recent (makeFingerprint cfg.library alert) found.now =
      some (Function.update newServer.recent (makeFingerprint cfg.library alert)
        (some found.now)) := by
    simp [allowed, newServer, found]
  have hexecutes : executes cfg alert found = true := executes_iff.mpr ⟨hlive, hruns, rfl⟩
  refine ⟨?_, hslash⟩
  rw [handleAlert_handler hearly hfiring hhandler, hallowed]
  simp [hexecutes]

/-- If the loop can reach an alert that escapes, then in some world the server runs a
script which is not a file of the directory. -/
theorem escape_in_some_world {cfg : Config} (hlive : cfg.dryRun = false) (alerts : List Json)
    {alert : Json} (hreach : alert ∈ alerts.takeWhile (fun alert => !raisesEarly alert))
    (hescapes : escapes cfg alert = true) :
    ∃ answers, ¬ Confined cfg
      (handleAlerts cfg (withAnswers answers alerts) newServer).1 := by
  induction alerts with
  | nil => cases hreach
  | cons first rest ih =>
      cases hearly : raisesEarly first with
      | true => simp [hearly] at hreach
      | false =>
          simp only [List.takeWhile_cons, hearly, Bool.not_false, if_true, List.mem_cons]
            at hreach
          rcases hreach with rfl | hlater
          · refine ⟨fun _ => found, ?_⟩
            intro hconfined
            obtain ⟨hexecuted, hslash⟩ := escape_executed hlive hearly hescapes
            rw [withAnswers, List.mapIdx_cons] at hconfined
            have hchild := hconfined _ (executions_of_first_turn cfg _ _ _ _ hexecuted)
            rw [isChild_execution_iff] at hchild
            exact hchild hslash
          · obtain ⟨answers, hanswers⟩ := ih hlater
            have hwith : withAnswers (fun n => Nat.casesOn n missing answers) (first :: rest) =
                (first, missing) :: withAnswers answers rest := by
              rw [withAnswers, List.mapIdx_cons]
              rfl
            refine ⟨fun n => Nat.casesOn n missing answers, ?_⟩
            rw [hwith, handleAlerts, handleAlert_missing hearly]
            exact hanswers

/-- A request without such a name leaves the scripts confined. -/
theorem confined_serve {cfg : Config} {path : String} {body : Body}
    (h : confinedRequest cfg path body) (answers : Nat → Answers) {s : Server}
    (hs : Confined cfg s) :
    Confined cfg (serve cfg s { path := path, body := body, answers := answers }) := by
  have halerts := alerts_of_turns answers (requestAlerts path body)
  have hloop : Confined cfg
      (handleAlerts cfg (withAnswers answers (requestAlerts path body)) s).1 := by
    apply confined_loop _ _ hs
    rw [halerts]
    exact h
  unfold Confined at hloop ⊢
  rw [(serve_turns cfg s _).2]
  exact hloop

/-- **Confinement.**  Whatever the world answers and whatever was run before, a request
leaves the scripts confined to the handlers directory, if and only if the server only
pretends to run them or no alert which the loop can reach makes it run a script under a
name with a `/`. -/
theorem confined_iff (cfg : Config) (path : String) (body : Body) :
    (∀ answers s, Confined cfg s →
        Confined cfg (serve cfg s { path := path, body := body, answers := answers })) ↔
      confinedRequest cfg path body := by
  constructor
  · intro h
    unfold confinedRequest
    cases hlive : cfg.dryRun with
    | true => exact Or.inl rfl
    | false =>
        right
        intro alert hreach
        by_contra hescapes
        rw [Bool.not_eq_false] at hescapes
        obtain ⟨answers, hanswers⟩ := escape_in_some_world hlive _ hreach hescapes
        have hnew : Confined cfg newServer := fun x hx => by cases hx
        have hserved := h answers newServer hnew
        unfold Confined at hserved hanswers
        rw [(serve_turns cfg newServer _).2] at hserved
        exact hanswers hserved
  · intro h answers s hs
    exact confined_serve h answers hs

/-- A run of such requests leaves the scripts confined. -/
theorem confined_run {cfg : Config} (requests : List Request)
    (h : ∀ req ∈ requests, confinedRequest cfg req.path req.body) {s : Server}
    (hs : Confined cfg s) : Confined cfg (requests.foldl (serve cfg) s) := by
  induction requests generalizing s with
  | nil => exact hs
  | cons req rest ih =>
      have hserved : Confined cfg (serve cfg s req) :=
        confined_serve (h req List.mem_cons_self) req.answers hs
      exact ih (fun r hr => h r (List.mem_cons_of_mem _ hr)) hserved

/-- A server which executes what it finds.  The digest is that of the labels of
`evilRequest`. -/
def liveConfig : Config where
  handlersDir := parse "/app/recovery/handlers".toList
  dryRun := false
  library :=
    { str := fun _ => "", upper := String.toUpper, digest := fun _ => "060ebb1c2e6a9c4d" }

/-- One firing alert, whose name leads out of the handlers directory. -/
def evilRequest : Request where
  path := "/webhook"
  body := .value (.obj [("alerts", .arr [.obj [("status", .str "firing"),
    ("labels", .obj [("alertname", .str "../../../tmp/evil")])]])])
  answers := fun _ => found

/-- The server runs `/app/recovery/handlers/../../../tmp/evil.sh`. -/
theorem script_outside_handlers_dir :
    (serve liveConfig newServer evilRequest).executions.map (fun x => x.script.parts) =
        [["app", "recovery", "handlers", "..", "..", "..", "tmp", "evil.sh"].map String.toList] ∧
      ¬ Confined liveConfig (serve liveConfig newServer evilRequest) := by
  have hrun : (serve liveConfig newServer evilRequest).executions.map (fun x => x.script.parts) =
      [["app", "recovery", "handlers", "..", "..", "..", "tmp", "evil.sh"].map String.toList] := by
    decide +kernel
  refine ⟨hrun, ?_⟩
  intro h
  have hmem := List.mem_singleton_self
    (["app", "recovery", "handlers", "..", "..", "..", "tmp", "evil.sh"].map String.toList)
  rw [← hrun] at hmem
  obtain ⟨x, hx, hparts⟩ := List.mem_map.mp hmem
  have hlength := congrArg List.length (h x hx).2
  have hdir : liveConfig.handlersDir.parts.length = 3 := by decide +kernel
  rw [hparts, List.length_append, hdir] at hlength
  simp at hlength

end FaultOracle.Recovery
