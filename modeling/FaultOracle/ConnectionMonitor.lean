import Mathlib.Algebra.Order.Group.Int
import Mathlib.Data.String.Basic
import FaultOracle.GuardedRuns

/-!
# The connection monitor and its failover

`connection-monitor.sh` pings a target; after a streak of failures `cmd_failover` takes
the first connection which NetworkManager lists as activated, brings it down, and brings
up the next one of a fixed list of profiles.

The order of the two halves matters: the active connection goes down before anybody has
looked whether there is a next one, and before the next one is up.  `SafeFailover` asks
that a failover which does not reach the next connection leaves what was active as it
was, and that it never disconnects the machine altogether; `failovers_safe_iff` names the
runs all of whose failovers are safe.

NetworkManager itself stays outside.  `Nmcli` is any behaviour of its two commands which
keeps what they promise: a success means what it says, and a failing command activates
nothing.  What a failing command takes down is left open: `nmcli connection up` of a profile
which is active already takes it down first.
-/

namespace FaultOracle.Network

open GuardedRuns

/-- The `STATE` of a profile in `nmcli connection show`. -/
inductive NmState
  | inactive
  | activating
  | activated
  | deactivating
deriving DecidableEq, Repr

def NmState.text : NmState → String
  | .inactive => ""
  | .activating => "activating"
  | .activated => "activated"
  | .deactivating => "deactivating"

/-- A connection profile of NetworkManager. -/
structure Profile where
  id : String
  state : NmState
  autoconnectPriority : Int
deriving DecidableEq, Repr

/-- The terse output of `nmcli` puts a backslash before colons and backslashes. -/
def terseEscape : List Char → List Char
  | [] => []
  | c :: cs => if c = ':' ∨ c = '\\' then '\\' :: c :: terseEscape cs else c :: terseEscape cs

/-- A line of `nmcli -t -f NAME,STATE connection show`. -/
def terseLine (p : Profile) : List Char :=
  terseEscape p.id.toList ++ ':' :: p.state.text.toList

/-- `awk -F: '$2=="activated"{print $1}'` on one line; it knows of no escapes. -/
def awkActivated (line : List Char) : Option String :=
  match line.splitOn ':' with
  | name :: state :: _ =>
      if state = "activated".toList then some (String.ofList name) else none
  | _ => none

/-- A connection of this name is activated. -/
def IsActive (nm : List Profile) (id : String) : Prop := ∃ p ∈ nm, p.id = id ∧ p.state = .activated

instance (nm : List Profile) (id : String) : Decidable (IsActive nm id) :=
  inferInstanceAs (Decidable (∃ p ∈ nm, _))

/-- Whatever is active before is active after. -/
def Leaves (before after : List Profile) : Prop := ∀ id, IsActive before id → IsActive after id

/-- `nmcli connection down id` and `nmcli connection up id`: whether they succeed for the
profiles they find, and the profiles they leave. -/
structure Nmcli where
  down : List Profile → String → Bool × List Profile
  up : List Profile → String → Bool × List Profile
  down_ok : ∀ nm id, (down nm id).1 = true → IsActive nm id ∧ ¬ IsActive (down nm id).2 id
  down_failed : ∀ nm id, (down nm id).1 = false → Leaves (down nm id).2 nm
  up_ok : ∀ nm id, (up nm id).1 = true → IsActive (up nm id).2 id
  up_failed : ∀ nm id, (up nm id).1 = false → Leaves (up nm id).2 nm

/-- What the options and the `PATH` fix for a run. -/
structure Config where
  pingTarget : String
  failureThreshold : Int
  interval : String
  dryRun : Bool
  haveNmcli : Bool

/-- `get_active_connection_id`: the first activated connection, or the empty string; the
pipeline fails where `nmcli` cannot list the connections. -/
def getActiveConnectionId (config : Config) (listed : Bool) (nm : List Profile) :
    Option String :=
  if config.haveNmcli then
    if listed then some (((nm.map terseLine).filterMap awkActivated).head?.getD "") else none
  else some ""

/-- `get_active_connection_priority`. -/
def getActiveConnectionPriority (config : Config) (nm : List Profile) (connId : String) : Int :=
  if connId = "" then 0
  else if config.haveNmcli then
    ((nm.find? (fun p => p.id = connId)).map Profile.autoconnectPriority).getD 0
  else 0

def nmConnectionsOrdered : List String := ["primary-ethernet", "wifi-backup", "lte-fallback"]

/-- The loop of `get_next_connection`. -/
def nextIn (current : String) : Bool → List String → String
  | _, [] => ""
  | true, conn :: _ => conn
  | false, conn :: conns => nextIn current (conn = current) conns

/-- `get_next_connection`. -/
def getNextConnection (current : String) : String := nextIn current false nmConnectionsOrdered

/-- A line of `log`, or a message to syslog. -/
inductive Message
  | log (text : String)
  | logger (priority text : String)
deriving DecidableEq, Repr

/-- What a call of `cmd_failover` leaves. -/
structure FailoverResult where
  nm : List Profile
  countFile : Option Nat
  failoverTotal : Nat
  messages : List Message
  status : Nat

/-- `${conn:-none}`. -/
def orNone (conn : String) : String := if conn = "" then "none" else conn

/-- The first half of a failover. -/
def bringDown (nmcli : Nmcli) (nm : List Profile) (current : String) : List Profile :=
  if current = "" then nm else (nmcli.down nm current).2

/-- What `cmd_failover` takes for the current connection; it goes on where the listing fails. -/
def currentOf (config : Config) (listed : Bool) (nm : List Profile) : String :=
  (getActiveConnectionId config listed nm).getD ""

/-- `cmd_failover`; `countFile` is what `FAILOVER_COUNT_FILE` holds. -/
def cmdFailover (config : Config) (nmcli : Nmcli) (listed : Bool) (nm : List Profile)
    (countFile : Option Nat) (failoverTotal : Nat) : FailoverResult :=
  let current := currentOf config listed nm
  let next := getNextConnection current
  let head := Message.log s!"FAILOVER: current='{orNone current}' next='{orNone next}'"
  if config.dryRun then
    { nm := nm, countFile := countFile, failoverTotal := failoverTotal, status := 0
      messages :=
        [head, .log s!"DRY-RUN: would run: nmcli connection down id '{current}'",
          .log s!"DRY-RUN: would run: nmcli connection up id '{next}'"] }
  else if config.haveNmcli = false then
    { nm := nm, countFile := countFile, failoverTotal := failoverTotal, status := 1
      messages := [head, .log "ERROR: nmcli not available; cannot perform failover."] }
  else
    let nm1 := bringDown nmcli nm current
    let down := if current = "" then [head] else [head, .log s!"Bringing down: {current}"]
    if next = "" then
      { nm := nm1, countFile := countFile, failoverTotal := failoverTotal, status := 1
        messages := down ++
          [.log s!"WARNING: No further fallback connection available after '{current}'.",
            .logger "daemon.crit"
              s!"Network failover exhausted: no connection available after '{current}'"] }
    else if (nmcli.up nm1 next).1 then
      let count := countFile.getD 0 + 1
      { nm := (nmcli.up nm1 next).2, countFile := some count, failoverTotal := count
        status := 0
        messages := down ++
          [.log s!"Bringing up: {next}", .log s!"Failover to '{next}' succeeded.",
            .logger "daemon.warning" s!"Network failover: '{current}' -> '{next}'"] }
    else
      { nm := (nmcli.up nm1 next).2, countFile := countFile
        failoverTotal := failoverTotal, status := 1
        messages := down ++
          [.log s!"Bringing up: {next}", .log s!"ERROR: Failed to activate '{next}'.",
            .logger "daemon.err" s!"Network failover FAILED: could not activate '{next}'"] }

/-- The text `write_metrics` puts into `METRICS_FILE`. -/
def writeMetrics (config : Config) (streak : Nat) (priority : Int) (failovers : Nat) :
    List String :=
  [s!"# HELP network_ping_failure_streak Consecutive ping failures to {config.pingTarget}",
    "# TYPE network_ping_failure_streak gauge",
    s!"network_ping_failure_streak {streak}",
    "# HELP network_active_connection_priority autoconnect-priority of active NM connection",
    "# TYPE network_active_connection_priority gauge",
    s!"network_active_connection_priority {priority}",
    "# HELP network_connection_failovers_total Total NM failover events since process start",
    "# TYPE network_connection_failovers_total counter",
    s!"network_connection_failovers_total {failovers}"]

/-! ## The monitor loop -/

/-- A failover of the run: what was active, the connection it went for, what is active. -/
structure Failover where
  before : List Profile
  next : String
  after : List Profile
deriving DecidableEq, Repr

/-- The variables of the script and the world around it. -/
structure Monitor where
  running : Bool
  pingFailureStreak : Nat
  failoverTotal : Nat
  countFile : Option Nat
  nm : List Profile
  metricsFile : List String
  messages : List Message
  failovers : List Failover

/-- What becomes of the metrics: there is no directory for them and none can be made, they
are written, or writing them fails. -/
inductive MetricsWrite
  | skipped
  | written
  | failed
deriving DecidableEq, Repr

/-- What one iteration meets: the profiles, if something else has changed them since the
last one, the ping, `nmcli`, whether it can list the connections in `cmd_failover` and behind
it, the write of the metrics, and whether `sleep` takes its argument. -/
structure Iteration where
  changed : Option (List Profile)
  pingOk : Bool
  nmcli : Nmcli
  listedInFailover : Bool
  listed : Bool
  metrics : MetricsWrite
  slept : Bool

/-- The profiles an iteration finds. -/
def profilesAt (m : Monitor) (it : Iteration) : List Profile := it.changed.getD m.nm

/-- The iteration reaches the threshold and calls `cmd_failover`. -/
def Triggers (config : Config) (m : Monitor) (it : Iteration) : Prop :=
  m.running = true ∧ it.pingOk = false ∧
    ((m.pingFailureStreak + 1 : Nat) : Int) ≥ config.failureThreshold

instance (config : Config) (m : Monitor) (it : Iteration) : Decidable (Triggers config m it) :=
  inferInstanceAs (Decidable (_ ∧ _ ∧ _))

/-- The ping of an iteration and what follows from it. -/
def pingTurn (config : Config) (m : Monitor) (it : Iteration) : Monitor :=
  let nm := profilesAt m it
  if it.pingOk then
    { m with
      nm := nm
      pingFailureStreak := 0
      messages := m.messages ++
        if m.pingFailureStreak > 0 then
          [.log s!"Connectivity restored after {m.pingFailureStreak} failures."]
        else [] }
  else
    let streak := m.pingFailureStreak + 1
    let missed := Message.log s!"Ping failure streak: {streak}/{config.failureThreshold}"
    if (streak : Int) ≥ config.failureThreshold then
      let r := cmdFailover config it.nmcli it.listedInFailover nm m.countFile m.failoverTotal
      { m with
        nm := r.nm
        pingFailureStreak := 0
        countFile := r.countFile
        failoverTotal := r.failoverTotal
        messages := m.messages ++
          [missed, .log "Failure threshold reached — triggering failover."] ++ r.messages
        failovers := m.failovers ++
          [⟨nm, getNextConnection (currentOf config it.listedInFailover nm), r.nm⟩] }
    else { m with nm := nm, pingFailureStreak := streak, messages := m.messages ++ [missed] }

/-- `set -e` ends the script, and the trap says so. -/
def shutDown (m : Monitor) : Monitor :=
  { m with
    running := false
    messages := m.messages ++ [.log "Shutting down. Writing final metrics."] }

/-- One iteration of `cmd_monitor`.  A listing, a write of the metrics or a `sleep` which fails
is the last thing the script does. -/
def iterate (config : Config) (m : Monitor) (it : Iteration) : Monitor :=
  if m.running then
    let m1 := pingTurn config m it
    match getActiveConnectionId config it.listed m1.nm with
    | none => shutDown m1
    | some activeConn =>
        let priority := getActiveConnectionPriority config m1.nm activeConn
        let total := m1.countFile.getD m1.failoverTotal
        let m2 :=
          { m1 with
            failoverTotal := total
            metricsFile :=
              if it.metrics = .written then
                writeMetrics config m1.pingFailureStreak priority total
              else m1.metricsFile }
        if it.metrics = .failed ∨ it.slept = false then shutDown m2 else m2
  else m

/-- `cmd_monitor` up to its loop. -/
def start (config : Config) (nm : List Profile) (countFile : Option Nat)
    (metricsFile : List String) : Monitor where
  running := true
  pingFailureStreak := 0
  failoverTotal := countFile.getD 0
  countFile := countFile
  nm := nm
  metricsFile := metricsFile
  messages :=
    [.log (s!"Starting monitor: target={config.pingTarget}, interval={config.interval}s, " ++
      s!"threshold={config.failureThreshold}")]
  failovers := []

/-! ## One failover -/

/-- The failover ends with the connection it went for activated. -/
def EndsWithNext (f : Failover) : Prop := f.next ≠ "" ∧ IsActive f.after f.next

/-- A failover that does not end with the next connection activated leaves active what was
active, and none takes the last active connection away. -/
structure SafeFailover (f : Failover) : Prop where
  keeps : ¬ EndsWithNext f → Leaves f.before f.after
  connected : (∃ id, IsActive f.before id) → ∃ id, IsActive f.after id

theorem SafeFailover.of_leaves {f : Failover} (h : Leaves f.before f.after) : SafeFailover f where
  keeps := fun _ => h
  connected := fun ⟨id, hid⟩ => ⟨id, h id hid⟩

theorem SafeFailover.of_endsWithNext {f : Failover} (h : EndsWithNext f) : SafeFailover f where
  keeps := fun hnot => absurd h hnot
  connected := fun _ => ⟨f.next, h.2⟩

/-- The failover does nothing, or there is a next connection, which comes up or stays up, or
`down` fails, and neither it nor an `up` behind it takes anything down. -/
def Recovers (config : Config) (nmcli : Nmcli) (nm : List Profile) (current : String) : Prop :=
  let next := getNextConnection current
  let nm1 := (nmcli.down nm current).2
  config.dryRun = true ∨ config.haveNmcli = false ∨ current = "" ∨
    (next ≠ "" ∧ ((nmcli.up nm1 next).1 = true ∨ IsActive (nmcli.up nm1 next).2 next)) ∨
    ((nmcli.down nm current).1 = false ∧ Leaves nm nm1 ∧
      (next = "" ∨ Leaves nm1 (nmcli.up nm1 next).2))

section Failovers

variable {config : Config} (nmcli : Nmcli) (listed : Bool) (nm : List Profile)
  (countFile : Option Nat) (total : Nat)

theorem nm_cmdFailover_idle (h : config.dryRun = true ∨ config.haveNmcli = false) :
    (cmdFailover config nmcli listed nm countFile total).nm = nm := by
  unfold cmdFailover
  by_cases hdry : config.dryRun = true
  · simp [hdry]
  · simp [hdry, h.resolve_left hdry]

/-- The profiles behind a failover are those behind its last command. -/
theorem nm_cmdFailover (hdry : config.dryRun = false) (hnmcli : config.haveNmcli = true) :
    (cmdFailover config nmcli listed nm countFile total).nm =
      if getNextConnection (currentOf config listed nm) = "" then
        bringDown nmcli nm (currentOf config listed nm)
      else
        (nmcli.up (bringDown nmcli nm (currentOf config listed nm))
          (getNextConnection (currentOf config listed nm))).2 := by
  unfold cmdFailover
  by_cases hnext : getNextConnection (currentOf config listed nm) = ""
  · simp [hdry, hnmcli, hnext]
  · by_cases hup : (nmcli.up (bringDown nmcli nm (currentOf config listed nm))
        (getNextConnection (currentOf config listed nm))).1 = true
    · simp [hdry, hnmcli, hnext, hup]
    · simp [hdry, hnmcli, hnext, hup]

/-- **The last connection.**  With nothing to go to, a failover is safe exactly when `down`
fails and leaves everything active. -/
theorem safeFailover_down_iff {nm : List Profile} (nmcli : Nmcli) (current : String) :
    SafeFailover ⟨nm, "", (nmcli.down nm current).2⟩ ↔
      (nmcli.down nm current).1 = false ∧ Leaves nm (nmcli.down nm current).2 := by
  constructor
  · intro hsafe
    have hkept : Leaves nm (nmcli.down nm current).2 := hsafe.keeps fun h => h.1 rfl
    refine ⟨?_, hkept⟩
    by_contra hdown
    obtain ⟨hwas, hgone⟩ := nmcli.down_ok nm current (by simpa using hdown)
    exact hgone (hkept _ hwas)
  · rintro ⟨-, hkept⟩
    exact .of_leaves hkept

/-- **With a next connection** a failover is safe exactly when that comes up or stays up, or
when both commands fail and leave everything active. -/
theorem safeFailover_up_iff {nm : List Profile} (nmcli : Nmcli) (current : String) {next : String}
    (hnext : next ≠ "") :
    SafeFailover ⟨nm, next, (nmcli.up (nmcli.down nm current).2 next).2⟩ ↔
      ((nmcli.up (nmcli.down nm current).2 next).1 = true ∨
        IsActive (nmcli.up (nmcli.down nm current).2 next).2 next) ∨
      ((nmcli.down nm current).1 = false ∧ Leaves nm (nmcli.down nm current).2 ∧
        Leaves (nmcli.down nm current).2 (nmcli.up (nmcli.down nm current).2 next).2) := by
  have hbefore := nmcli.down_failed nm current
  have hwas := nmcli.down_ok nm current
  generalize nmcli.down nm current = down at *
  constructor
  · intro hsafe
    by_cases hup : (nmcli.up down.2 next).1 = true ∨ IsActive (nmcli.up down.2 next).2 next
    · exact .inl hup
    · refine .inr ?_
      obtain ⟨hfailed, hinactive⟩ := not_or.mp hup
      have hless := nmcli.up_failed down.2 next (by simpa using hfailed)
      have hkept : Leaves nm (nmcli.up down.2 next).2 := hsafe.keeps fun h => hinactive h.2
      have hkept1 : Leaves nm down.2 := fun id hid => hless id (hkept id hid)
      have hdown : down.1 = false := by
        by_contra hdown
        obtain ⟨hactive, hgone⟩ := hwas (by simpa using hdown)
        exact hgone (hkept1 _ hactive)
      exact ⟨hdown, hkept1, fun id hid => hkept id (hbefore hdown id hid)⟩
  · rintro (hup | ⟨-, hkept1, hkept2⟩)
    · exact .of_endsWithNext ⟨hnext, hup.elim (nmcli.up_ok _ _) id⟩
    · exact .of_leaves fun id hid => hkept2 id (hkept1 id hid)

/-- **One failover** is safe exactly when it recovers. -/
theorem safeFailover_iff :
    SafeFailover ⟨nm, getNextConnection (currentOf config listed nm),
        (cmdFailover config nmcli listed nm countFile total).nm⟩ ↔
      Recovers config nmcli nm (currentOf config listed nm) := by
  by_cases hidle : config.dryRun = true ∨ config.haveNmcli = false
  · rw [nm_cmdFailover_idle nmcli listed nm countFile total hidle]
    refine iff_of_true (.of_leaves fun _ hid => hid) ?_
    exact hidle.elim .inl fun h => .inr (.inl h)
  · obtain ⟨hdry, hnmcli⟩ : config.dryRun = false ∧ config.haveNmcli = true := by
      simpa using hidle
    rw [nm_cmdFailover nmcli listed nm countFile total hdry hnmcli, Recovers]
    simp only [hdry, hnmcli, Bool.false_eq_true, Bool.true_eq_false, false_or]
    generalize currentOf config listed nm = current
    by_cases hcurrent : current = ""
    · -- no connection is listed: there is none to take down, and none is next to nothing
      subst hcurrent
      exact iff_of_true (.of_leaves fun _ hid => hid) (.inl rfl)
    · rw [bringDown, if_neg hcurrent]
      by_cases hnext : getNextConnection current = ""
      · rw [if_pos hnext, hnext, safeFailover_down_iff]
        simp [hcurrent]
      · rw [if_neg hnext, safeFailover_up_iff nmcli current hnext]
        simp [hcurrent, hnext]

end Failovers

/-! ## Runs of the monitor -/

/-- What follows the ping in an iteration calls no failover. -/
theorem failovers_iterate_eq (config : Config) {m : Monitor} (it : Iteration)
    (hrunning : m.running = true) :
    (iterate config m it).failovers = (pingTurn config m it).failovers := by
  rw [iterate, if_pos hrunning]
  simp only
  split
  · rfl
  · split <;> rfl

/-- An iteration fails over once if it reaches the threshold, and else not at all. -/
theorem failovers_iterate (config : Config) (m : Monitor) (it : Iteration) :
    (iterate config m it).failovers = m.failovers ++
      if Triggers config m it then
        [⟨profilesAt m it,
          getNextConnection (currentOf config it.listedInFailover (profilesAt m it)),
          (cmdFailover config it.nmcli it.listedInFailover (profilesAt m it) m.countFile
            m.failoverTotal).nm⟩]
      else [] := by
  by_cases hrunning : m.running = true
  · rw [failovers_iterate_eq config it hrunning, pingTurn]
    by_cases hping : it.pingOk = true
    · have hnot : ¬ Triggers config m it := by simp [Triggers, hping]
      simp [hping, hnot]
    · have hping' : it.pingOk = false := by simpa using hping
      by_cases hstreak : config.failureThreshold ≤ (m.pingFailureStreak : Int) + 1
      · simp [hstreak, Triggers, hping', hrunning]
      · simp [hstreak, Triggers, hping']
  · rw [iterate, if_neg hrunning, if_neg fun h => hrunning h.1, List.append_nil]

/-- The condition on an iteration: if it fails over, then so that it recovers. -/
def Harmless (config : Config) (m : Monitor) (it : Iteration) : Prop :=
  Triggers config m it →
    Recovers config it.nmcli (profilesAt m it)
      (currentOf config it.listedInFailover (profilesAt m it))

/-- All failovers of the run so far were safe. -/
def FailoversSafe (m : Monitor) : Prop := ∀ f ∈ m.failovers, SafeFailover f

/-- **One iteration** keeps the failovers safe exactly when it does no harm. -/
theorem failoversSafe_iterate_iff {config : Config} {m : Monitor} (it : Iteration) :
    FailoversSafe (iterate config m it) ↔ FailoversSafe m ∧ Harmless config m it := by
  unfold FailoversSafe Harmless
  rw [failovers_iterate]
  by_cases htriggers : Triggers config m it
  · have hone := @safeFailover_iff config it.nmcli it.listedInFailover
      (profilesAt m it) m.countFile m.failoverTotal
    constructor
    · intro h
      exact ⟨fun f hf => h f (List.mem_append_left _ hf),
        fun _ => hone.mp (h _ (List.mem_append_right _ (by simp [htriggers])))⟩
    · rintro ⟨hold, hharmless⟩ f hf
      rcases List.mem_append.mp hf with hf | hf
      · exact hold f hf
      · rw [if_pos htriggers, List.mem_singleton] at hf
        exact hf ▸ hone.mpr (hharmless htriggers)
  · simp [htriggers]

/-- **The failovers of a run are safe** in exactly the runs in which every iteration that
reaches the threshold recovers. -/
theorem failovers_safe_iff (config : Config) (nm : List Profile) (countFile : Option Nat)
    (metricsFile : List String) (run : List Iteration) :
    FailoversSafe (run.foldl (iterate config) (start config nm countFile metricsFile)) ↔
      Meets (iterate config) (Harmless config) (start config nm countFile metricsFile) run := by
  have hstart : FailoversSafe (start config nm countFile metricsFile) := by
    intro f hf
    simp [start] at hf
  rw [← throughout_iff_at_end fun m it h => ((failoversSafe_iterate_iff it).mp h).1]
  exact throughout_iff_meets (fun _ => True) (fun _ _ _ _ _ => trivial)
    (fun m it _ hm => (failoversSafe_iterate_iff it).trans (and_iff_right hm)) trivial hstart run

/-- The script's defaults. -/
def defaults : Config where
  pingTarget := "8.8.8.8"
  failureThreshold := 3
  interval := "30"
  dryRun := false
  haveNmcli := true

/-- The profiles with the state of those of one name set. -/
def setState (state : NmState) (nm : List Profile) (id : String) : List Profile :=
  nm.map fun p => if p.id = id then { p with state := state } else p

theorem not_isActive_setState_inactive (nm : List Profile) (id : String) :
    ¬ IsActive (setState .inactive nm id) id := by
  rintro ⟨q, hq, hid, hstate⟩
  obtain ⟨p, -, rfl⟩ := List.mem_map.mp hq
  by_cases hp : p.id = id
  · simp [hp] at hstate
  · simp [hp] at hid

theorem isActive_setState_activated {nm : List Profile} {id : String}
    (hknown : ∃ p ∈ nm, p.id = id) : IsActive (setState .activated nm id) id := by
  obtain ⟨p, hp, rfl⟩ := hknown
  exact ⟨_, List.mem_map.mpr ⟨p, hp, rfl⟩, by simp, by simp⟩

/-- Commands which succeed whenever they can: `down` on an active connection, `up` on a profile
which exists. -/
def willing : Nmcli where
  down nm id := if IsActive nm id then (true, setState .inactive nm id) else (false, nm)
  up nm id := if ∃ p ∈ nm, p.id = id then (true, setState .activated nm id) else (false, nm)
  down_ok nm id := by
    split
    · rename_i hactive
      exact fun _ => ⟨hactive, not_isActive_setState_inactive nm id⟩
    · simp
  down_failed nm id := by
    split
    · simp
    · exact fun _ _ h => h
  up_ok nm id := by
    split
    · rename_i hknown
      exact fun _ => isActive_setState_activated hknown
    · simp
  up_failed nm id := by
    split
    · simp
    · exact fun _ _ h => h

/-- A missed ping, with every `nmcli` command succeeding. -/
def missedPing : Iteration where
  changed := none
  pingOk := false
  nmcli := willing
  listedInFailover := true
  listed := true
  metrics := .written
  slept := true

/-- A machine whose only connection is the profile which NetworkManager makes by itself
loses it after three missed pings, with nothing to go to. -/
theorem only_connection_brought_down :
    ¬ FailoversSafe ([missedPing, missedPing, missedPing].foldl (iterate defaults)
      (start defaults [⟨"Wired connection 1", .activated, 0⟩] none [])) := by
  intro h
  have hsafe := h ⟨[⟨"Wired connection 1", .activated, 0⟩], "",
    [⟨"Wired connection 1", .inactive, 0⟩]⟩ (by decide +kernel)
  obtain ⟨id, hid⟩ := hsafe.connected ⟨"Wired connection 1", by decide⟩
  simp [IsActive] at hid

end FaultOracle.Network
