import Mathlib.Algebra.Order.Group.Int
import Mathlib.Data.String.Basic
import FaultOracle.GuardedRuns
import FaultOracle.TimedLogs

/-!
# The watchdog of the hardware fault monitor

`hw-fault-monitor.c` is a daemon under systemd's watchdog.  Its loop has two timers:
every 10 s it polls the count of correctable errors, and every half watchdog period
it sends `WATCHDOG=1`.  A poll which finds more than `CE_CRITICAL_THRESHOLD` new
errors sets `suppress_watchdog`, so that systemd's watchdog fires and restarts the
daemon "if this persists".

The flag is a local of one iteration: the next iteration clears it, and polls again
only 10 s later.  What the comments promise is `SuppressesWatchdog`, a statement
about the log of a run; `suppresses_iff` names the runs which keep it, those where
no ping falls due between a critical poll and the next poll that counts.
-/

namespace FaultOracle.Watchdog

open GuardedRuns TimedLogs

def pollIntervalSec : Int := 10

def ceWarnThreshold : Int := 100

def ceCriticalThreshold : Int := 1000

def statusMsgMaxlen : Nat := 256

/-- What the daemon finds in its environment: the number `WATCHDOG_USEC` spells, if it
is set and not empty, and `NOTIFY_SOCKET`. -/
structure Env where
  watchdogUsec : Option Int
  notifySocket : Option String

/-- The file `/sys/devices/system/edac/mc0/ce_count`. -/
inductive EdacFile
  | missing
  | unparsable
  | holds (count : Int)
deriving DecidableEq, Repr

/-- `read_edac_ce_count`. -/
def readEdacCeCount : EdacFile → Int
  | .missing => -1
  | .unparsable => -1
  | .holds count => count

/-- How the system calls of one notification end. -/
inductive SendReply
  | socketFails
  | sendtoFails
  | sent
deriving DecidableEq, Repr

/-- The result of `sd_notify_manual`: 1 if the datagram is sent. -/
def sdNotifyManual (env : Env) (reply : SendReply) : Int :=
  match env.notifySocket with
  | none => 0
  | some sockPath =>
      if sockPath = "" then 0
      else
        match reply with
        | .socketFails => -1
        | .sendtoFails => -1
        | .sent => 1

/-- What a run leaves behind: lines on stderr, datagrams that reached the notification
socket, and the increases its polls counted. -/
inductive Report
  | stderr (text : String)
  | notified (msg : String)
  | counted (ceDelta : Int)
deriving DecidableEq, Repr

/-- A report with the value of `now_usec` when it was made. -/
structure Entry where
  time : Int
  report : Report
deriving DecidableEq, Repr

/-- The entries of one call of `sd_notify_manual`. -/
def notify (env : Env) (reply : SendReply) (now : Int) (msg : String) : List Entry :=
  if sdNotifyManual env reply = 1 then [⟨now, .notified msg⟩] else []

/-- `snprintf` into a buffer of the given size. -/
def snprintf (size : Nat) (text : String) : String := String.ofList (text.toList.take (size - 1))

/-- `sd_notify_status`, whose buffer has room for the whole of its prefix. -/
def notifyStatus (env : Env) (reply : SendReply) (now : Int) (text : String) : List Entry :=
  notify env reply now
    (snprintf (statusMsgMaxlen + 8) ("STATUS=" ++ snprintf statusMsgMaxlen text))

/-- The variables of `main` that live across iterations, and the log so far. -/
structure Monitor where
  lastWatchdogPingUsec : Int
  lastPollUsec : Int
  prevCeCount : Int
  log : List Entry

/-- What one iteration meets: the clock, the file, and the fate of its datagrams. -/
structure Iteration where
  now : Int
  edac : EdacFile
  statusReply : SendReply
  pingReply : SendReply

/-- `g_watchdog_usec`. -/
def gWatchdogUsec (env : Env) : Int := env.watchdogUsec.getD 0

/-- `watchdog_interval_usec`. -/
def watchdogIntervalUsec (env : Env) : Int :=
  if gWatchdogUsec env > 0 then gWatchdogUsec env / 2 else 15000000

/-- The daemon up to its loop. -/
def start (env : Env) (first : Iteration) : Monitor :=
  let prevCeCount := readEdacCeCount first.edac
  { lastWatchdogPingUsec := first.now
    lastPollUsec := first.now
    prevCeCount := prevCeCount
    log :=
      [⟨first.now, .stderr s!"hw-fault-monitor: starting (watchdog_usec={gWatchdogUsec env})\n"⟩] ++
      (if prevCeCount < 0 then
        ⟨first.now,
          .stderr "hw-fault-monitor: EDAC mc0 not available; CE monitoring disabled\n"⟩ ::
          notifyStatus env first.statusReply first.now
            "Running (EDAC not available on this platform)"
      else
        ⟨first.now, .stderr s!"hw-fault-monitor: EDAC mc0 initial CE count: {prevCeCount}\n"⟩ ::
          notifyStatus env first.statusReply first.now
            s!"Running, EDAC ce_count={prevCeCount}") ++
      notify env first.pingReply first.now "READY=1" }

/-- What a poll reports of an increase. -/
def pollReports (env : Env) (it : Iteration) (currCeCount ceDelta : Int) : List Entry :=
  if ceDelta > ceCriticalThreshold then
    ⟨it.now, .stderr
      (s!"hw-fault-monitor: CRITICAL CE delta {ceDelta} > {ceCriticalThreshold}; " ++
        "suppressing watchdog ping to trigger restart\n")⟩ ::
      notifyStatus env it.statusReply it.now
        (snprintf statusMsgMaxlen s!"CRITICAL: CE delta={ceDelta}; allowing watchdog restart")
  else if ceDelta > ceWarnThreshold then
    ⟨it.now, .stderr
      s!"hw-fault-monitor: WARNING CE delta {ceDelta} > {ceWarnThreshold}\n"⟩ ::
      notifyStatus env it.statusReply it.now
        (snprintf statusMsgMaxlen s!"WARNING: high CE rate detected, delta={ceDelta}")
  else
    notifyStatus env it.statusReply it.now
      s!"OK, EDAC ce_count={currCeCount} (delta={ceDelta} per {pollIntervalSec}s)"

/-- The polling half of an iteration, with the value it gives `suppress_watchdog`. -/
def poll (env : Env) (m : Monitor) (it : Iteration) : Monitor × Bool :=
  if it.now - m.lastPollUsec ≥ pollIntervalSec * 1000000 then
    let currCeCount := readEdacCeCount it.edac
    if currCeCount ≥ 0 ∧ m.prevCeCount ≥ 0 then
      let ceDelta := currCeCount - m.prevCeCount
      ({ m with
          lastPollUsec := it.now
          prevCeCount := currCeCount
          log := m.log ++ ⟨it.now, .counted ceDelta⟩ :: pollReports env it currCeCount ceDelta },
        ceDelta > ceCriticalThreshold)
    else ({ m with lastPollUsec := it.now }, false)
  else (m, false)

/-- The pinging half of an iteration. -/
def ping (env : Env) (m : Monitor) (it : Iteration) (suppressWatchdog : Bool) : Monitor :=
  if suppressWatchdog = false ∧
      it.now - m.lastWatchdogPingUsec ≥ watchdogIntervalUsec env then
    { m with
      lastWatchdogPingUsec := it.now
      log := m.log ++ notify env it.pingReply it.now "WATCHDOG=1" }
  else m

/-- One iteration of the loop. -/
def iterate (env : Env) (m : Monitor) (it : Iteration) : Monitor :=
  ping env (poll env m it).1 it (poll env m it).2

/-- What follows the loop when a signal has set `g_terminate`. -/
def shutdown (env : Env) (last : Iteration) : List Entry :=
  [⟨last.now, .stderr "hw-fault-monitor: received termination signal, shutting down\n"⟩] ++
    notify env last.pingReply last.now "STOPPING=1" ++
    [⟨last.now, .stderr "hw-fault-monitor: shutdown complete\n"⟩]

/-- The log of a run, which a signal may or may not have ended. -/
def daemon (env : Env) (first : Iteration) (run : List Iteration) (last : Option Iteration) :
    List Entry :=
  (run.foldl (iterate env) (start env first)).log ++ (last.map (shutdown env)).getD []

/-- The readings of the clock in a run. -/
def readings (first : Iteration) (run : List Iteration) (last : Option Iteration) : List Int :=
  first.now :: (run.flatMap (fun it => [it.now]) ++ (last.map (fun it => [it.now])).getD [])

/-! ## The promise of the comments -/

/-- The verdict of a poll: whether the increase it counted is critical. -/
def verdict (e : Entry) : Option Bool :=
  match e.report with
  | .counted ceDelta => some (decide (ceDelta > ceCriticalThreshold))
  | _ => none

def IsPing (e : Entry) : Prop := e.report = .notified "WATCHDOG=1"

/-- systemd starts its timer at `READY=1` and restarts it at every ping. -/
def RestartsTimer (e : Entry) : Prop := IsPing e ∨ e.report = .notified "READY=1"

/-- systemd's watchdog of the given period fires no later than at `now`. -/
def WatchdogFires (usec : Int) (log : List Entry) (now : Int) : Prop :=
  ∀ e ∈ log, RestartsTimer e → e.time + usec ≤ now

/-- What the comments document of a log: after a poll that finds a critical increase no
ping is sent until a later poll finds a smaller one, and systemd's watchdog fires if
until then a whole period passes. -/
structure SuppressesWatchdog (usec : Int) (log : List Entry) : Prop where
  muted : Muted verdict IsPing log
  fires : ∀ before x rest now, log = before ++ x :: rest → verdict x = some true →
    (∀ z ∈ rest, verdict z ≠ some false) → x.time + usec ≤ now → WatchdogFires usec log now

/-- The iteration polls, and both its reading and the previous one are counts. -/
def Counts (m : Monitor) (it : Iteration) : Prop :=
  it.now - m.lastPollUsec ≥ pollIntervalSec * 1000000 ∧
    readEdacCeCount it.edac ≥ 0 ∧ m.prevCeCount ≥ 0

instance (m : Monitor) (it : Iteration) : Decidable (Counts m it) :=
  inferInstanceAs (Decidable (_ ∧ _ ∧ _))

/-- The iterations that do no harm: after a critical poll, one that counts again, or in
which no ping is due, or whose ping does not get through. -/
def Harmless (env : Env) (m : Monitor) (it : Iteration) : Prop :=
  lastVerdict verdict m.log = some true →
    Counts m it ∨ it.now - m.lastWatchdogPingUsec < watchdogIntervalUsec env ∨
      sdNotifyManual env it.pingReply ≠ 1

/-! ## What one iteration adds to the log -/

/-- An entry which neither judges nor touches systemd's timer. -/
structure Chatter (now : Int) (e : Entry) : Prop where
  time_eq : e.time = now
  no_verdict : verdict e = none
  no_restart : ¬ RestartsTimer e

/-- A notification logs its message at the time it is sent. -/
theorem mem_notify {env : Env} {reply : SendReply} {now : Int} {msg : String} {e : Entry}
    (he : e ∈ notify env reply now msg) : e = ⟨now, .notified msg⟩ := by
  unfold notify at he
  split at he
  · exact List.mem_singleton.mp he
  · cases he

/-- A line on standard error is chatter. -/
theorem chatter_stderr (now : Int) (text : String) : Chatter now ⟨now, .stderr text⟩ where
  time_eq := rfl
  no_verdict := rfl
  no_restart := by simp [RestartsTimer, IsPing]

/-- A status message is no keepalive: it begins with another letter. -/
theorem chatter_notifyStatus {env : Env} {reply : SendReply} {now : Int} {text : String}
    {e : Entry} (he : e ∈ notifyStatus env reply now text) : Chatter now e := by
  have hhead : ∀ t : String,
      (snprintf (statusMsgMaxlen + 8) ("STATUS=" ++ t)).toList.head? = some 'S' := by
    intro t
    simp [snprintf, statusMsgMaxlen, String.toList_append]
  rw [mem_notify he]
  refine ⟨rfl, rfl, ?_⟩
  rintro (h | h)
  · have hmsg := congrArg (fun s : String => s.toList.head?) (Report.notified.inj h)
    simp only [hhead] at hmsg
    revert hmsg
    decide
  · have hmsg := congrArg (fun s : String => s.toList.head?) (Report.notified.inj h)
    simp only [hhead] at hmsg
    revert hmsg
    decide

/-- The reports of a poll are chatter. -/
theorem chatter_pollReports {env : Env} {it : Iteration} {currCeCount ceDelta : Int}
    {e : Entry} (he : e ∈ pollReports env it currCeCount ceDelta) : Chatter it.now e := by
  unfold pollReports at he
  split at he
  · rcases List.mem_cons.mp he with rfl | he
    · exact chatter_stderr _ _
    · exact chatter_notifyStatus he
  · split at he
    · rcases List.mem_cons.mp he with rfl | he
      · exact chatter_stderr _ _
      · exact chatter_notifyStatus he
    · exact chatter_notifyStatus he

/-- **What a poll can do.**  It counts nothing and reports nothing, or it counts an increase,
speaks of it, and suppresses the ping if it is critical. -/
theorem poll_cases (env : Env) (m : Monitor) (it : Iteration) :
    (¬ Counts m it ∧ (poll env m it).2 = false ∧ (poll env m it).1.log = m.log) ∨
    (Counts m it ∧ ∃ ceDelta chatter, (poll env m it).2 = decide (ceDelta > ceCriticalThreshold) ∧
      (poll env m it).1.log = m.log ++ ⟨it.now, .counted ceDelta⟩ :: chatter ∧
      ∀ e ∈ chatter, Chatter it.now e) := by
  by_cases hdue : it.now - m.lastPollUsec ≥ pollIntervalSec * 1000000
  · by_cases hread : readEdacCeCount it.edac ≥ 0 ∧ m.prevCeCount ≥ 0
    · right
      exact ⟨⟨hdue, hread⟩, readEdacCeCount it.edac - m.prevCeCount,
        pollReports env it (readEdacCeCount it.edac) (readEdacCeCount it.edac - m.prevCeCount),
        by simp only [poll, if_pos hdue, if_pos hread],
        by simp only [poll, if_pos hdue, if_pos hread], fun e he => chatter_pollReports he⟩
    · left
      refine ⟨fun h => hread h.2, ?_, ?_⟩
      · simp only [poll, if_pos hdue, if_neg hread]
      · simp only [poll, if_pos hdue, if_neg hread]
  · left
    refine ⟨fun h => hdue h.1, ?_, ?_⟩
    · simp only [poll, if_neg hdue]
    · simp only [poll, if_neg hdue]

/-- The poll leaves the ping timer alone. -/
theorem poll_lastWatchdogPingUsec (env : Env) (m : Monitor) (it : Iteration) :
    (poll env m it).1.lastWatchdogPingUsec = m.lastWatchdogPingUsec := by
  unfold poll
  split
  · simp only
    split <;> rfl
  · rfl

/-- Chatter gives no verdict. -/
theorem lastVerdict_chatter {now : Int} {entries : List Entry}
    (h : ∀ e ∈ entries, Chatter now e) : lastVerdict verdict entries = none := by
  cases hlast : lastVerdict verdict entries with
  | none => rfl
  | some v =>
      obtain ⟨e, he, hv⟩ := mem_of_lastVerdict hlast
      simp [(h e he).no_verdict] at hv

/-- A poll sends no ping. -/
theorem muted_poll_iff (env : Env) (m : Monitor) (it : Iteration) :
    Muted verdict IsPing (poll env m it).1.log ↔ Muted verdict IsPing m.log := by
  rcases poll_cases env m it with ⟨-, -, hlog⟩ | ⟨-, ceDelta, chatter, -, hlog, hchatter⟩
  · rw [hlog]
  · rw [hlog]
    refine muted_append_of_quiet ?_
    intro e he
    rcases List.mem_cons.mp he with rfl | he
    · simp [IsPing]
    · exact fun hping => (hchatter e he).no_restart (.inl hping)

/-- The latest verdict after the polling half. -/
theorem lastVerdict_poll (env : Env) (m : Monitor) (it : Iteration) :
    lastVerdict verdict (poll env m it).1.log =
      if Counts m it then some (poll env m it).2 else lastVerdict verdict m.log := by
  rcases poll_cases env m it with ⟨hcounts, -, hlog⟩ | ⟨hcounts, d, chatter, hsup, hlog, hchatter⟩
  · rw [if_neg hcounts, hlog]
  · rw [if_pos hcounts, hlog, hsup, lastVerdict_append, ← List.singleton_append,
      lastVerdict_append, lastVerdict_chatter hchatter, lastVerdict_singleton]
    rfl

/-- The iteration sends a ping which gets through. -/
def Pings (env : Env) (m : Monitor) (it : Iteration) : Prop :=
  (poll env m it).2 = false ∧ it.now - m.lastWatchdogPingUsec ≥ watchdogIntervalUsec env ∧
    sdNotifyManual env it.pingReply = 1

instance (env : Env) (m : Monitor) (it : Iteration) : Decidable (Pings env m it) :=
  inferInstanceAs (Decidable (_ ∧ _ ∧ _))

/-- An iteration logs its poll, then a ping where one is due. -/
theorem iterate_log (env : Env) (m : Monitor) (it : Iteration) :
    (iterate env m it).log = (poll env m it).1.log ++
      if Pings env m it then [⟨it.now, .notified "WATCHDOG=1"⟩] else [] := by
  unfold iterate ping notify
  rw [poll_lastWatchdogPingUsec]
  by_cases hdue : (poll env m it).2 = false ∧
      it.now - m.lastWatchdogPingUsec ≥ watchdogIntervalUsec env
  · have hpings : Pings env m it ↔ sdNotifyManual env it.pingReply = 1 :=
      ⟨fun h => h.2.2, fun h => ⟨hdue.1, hdue.2, h⟩⟩
    simp only [if_pos hdue, hpings]
  · have hpings : ¬ Pings env m it := fun h => hdue ⟨h.1, h.2.1⟩
    rw [if_neg hdue, if_neg hpings, List.append_nil]

/-- **One iteration.**  It keeps a muted log muted exactly when it does no harm. -/
theorem muted_iterate_iff {env : Env} {m : Monitor} (it : Iteration)
    (hm : Muted verdict IsPing m.log) :
    Muted verdict IsPing (iterate env m it).log ↔ Harmless env m it := by
  have hpoll : Muted verdict IsPing (poll env m it).1.log := (muted_poll_iff env m it).mpr hm
  rw [iterate_log]
  by_cases hping : Pings env m it
  · rw [if_pos hping, muted_snoc, lastVerdict_poll]
    obtain ⟨hsup, hdue, hsend⟩ := hping
    by_cases hcounts : Counts m it
    · rw [if_pos hcounts, hsup]
      exact ⟨fun _ _ => .inl hcounts, fun _ => ⟨hpoll, fun _ => by simp⟩⟩
    · rw [if_neg hcounts]
      constructor
      · rintro ⟨-, hlast⟩ hcritical
        exact absurd hcritical (hlast rfl)
      · intro hharmless
        refine ⟨hpoll, fun _ hcritical => ?_⟩
        rcases hharmless hcritical with h | h | h
        · exact hcounts h
        · omega
        · exact h hsend
  · rw [if_neg hping, List.append_nil]
    refine ⟨fun _ hcritical => ?_, fun _ => hpoll⟩
    by_cases hcounts : Counts m it
    · exact .inl hcounts
    · -- a poll that does not count leaves the flag cleared, so the timer or the socket is why
      have hsup : (poll env m it).2 = false := by
        rcases poll_cases env m it with ⟨-, hsup, -⟩ | ⟨h, -⟩
        · exact hsup
        · exact absurd h hcounts
      by_cases hdue : it.now - m.lastWatchdogPingUsec < watchdogIntervalUsec env
      · exact .inr (.inl hdue)
      · exact .inr (.inr fun hsend => hping ⟨hsup, by omega, hsend⟩)

/-- A log muted after an iteration was muted before. -/
theorem muted_of_iterate {env : Env} (m : Monitor) (it : Iteration)
    (h : Muted verdict IsPing (iterate env m it).log) : Muted verdict IsPing m.log := by
  rw [iterate_log] at h
  exact (muted_poll_iff env m it).mp h.of_append

/-- What an iteration logs carries its reading of the clock, and no `READY=1`. -/
theorem iterate_adds (env : Env) (m : Monitor) (it : Iteration) :
    ∃ new, (iterate env m it).log = m.log ++ new ∧
      ∀ e ∈ new, e.time = it.now ∧ e.report ≠ .notified "READY=1" := by
  have hpinged : ∀ e ∈ (if Pings env m it then
      [(⟨it.now, .notified "WATCHDOG=1"⟩ : Entry)] else []),
      e.time = it.now ∧ e.report ≠ .notified "READY=1" := by
    intro e he
    split at he
    · obtain rfl := List.mem_singleton.mp he
      exact ⟨rfl, by simp⟩
    · cases he
  rcases poll_cases env m it with ⟨-, -, hlog⟩ | ⟨-, ceDelta, chatter, -, hlog, hchatter⟩
  · exact ⟨_, by rw [iterate_log, hlog], hpinged⟩
  · refine ⟨_, by rw [iterate_log, hlog, List.append_assoc], ?_⟩
    intro e he
    rcases List.mem_append.mp he with he | he
    · rcases List.mem_cons.mp he with rfl | he
      · exact ⟨rfl, by simp⟩
      · exact ⟨(hchatter e he).time_eq, fun h => (hchatter e he).no_restart (.inr h)⟩
    · exact hpinged e he

/-! ## Runs on a nondecreasing clock -/

/-- The order of a log: times do not decrease, and the daemon is ready before it polls. -/
def InOrder (a b : Entry) : Prop :=
  a.time ≤ b.time ∧ (verdict a ≠ none → b.report ≠ .notified "READY=1")

/-- A log in order, all of it written by `now`. -/
structure Chronicle (now : Int) (log : List Entry) : Prop where
  inOrder : log.Pairwise InOrder
  past : ∀ e ∈ log, e.time ≤ now

/-- Entries of one later time keep a log in order. -/
theorem Chronicle.append {now later : Int} {log new : List Entry} (h : Chronicle now log)
    (hle : now ≤ later)
    (hnew : ∀ e ∈ new, e.time = later ∧ e.report ≠ .notified "READY=1") :
    Chronicle later (log ++ new) where
  inOrder := by
    refine List.pairwise_append.mpr ⟨h.inOrder, List.pairwise_of_forall_mem_list ?_, ?_⟩
    · intro a ha b hb
      exact ⟨by rw [(hnew a ha).1, (hnew b hb).1], fun _ => (hnew b hb).2⟩
    · intro a ha b hb
      have hold : a.time ≤ now := h.past a ha
      have htime : b.time = later := (hnew b hb).1
      exact ⟨by omega, fun _ => (hnew b hb).2⟩
  past := by
    intro e he
    rcases List.mem_append.mp he with he | he
    · have hold : e.time ≤ now := h.past e he
      omega
    · exact (hnew e he).1.le

/-- What the daemon logs before its loop. -/
theorem start_log {env : Env} {first : Iteration} {e : Entry}
    (he : e ∈ (start env first).log) :
    Chatter first.now e ∨ e = ⟨first.now, .notified "READY=1"⟩ := by
  simp only [start, List.mem_append, List.mem_singleton] at he
  rcases he with (rfl | he) | he
  · exact .inl (chatter_stderr _ _)
  · split at he
    · rcases List.mem_cons.mp he with rfl | he
      · exact .inl (chatter_stderr _ _)
      · exact .inl (chatter_notifyStatus he)
    · rcases List.mem_cons.mp he with rfl | he
      · exact .inl (chatter_stderr _ _)
      · exact .inl (chatter_notifyStatus he)
  · exact .inr (mem_notify he)

/-- There is no verdict among it. -/
theorem start_adds {env : Env} {first : Iteration} {e : Entry}
    (he : e ∈ (start env first).log) : e.time = first.now ∧ verdict e = none := by
  rcases start_log he with hchatter | rfl
  · exact ⟨hchatter.time_eq, hchatter.no_verdict⟩
  · exact ⟨rfl, rfl⟩

theorem chronicle_start (env : Env) (first : Iteration) :
    Chronicle first.now (start env first).log where
  inOrder := by
    refine List.pairwise_of_forall_mem_list ?_
    intro a ha b hb
    exact ⟨by rw [(start_adds ha).1, (start_adds hb).1],
      fun h => absurd (start_adds ha).2 h⟩
  past := fun e he => (start_adds he).1.le

theorem muted_start (env : Env) (first : Iteration) :
    Muted verdict IsPing (start env first).log := by
  intro before mid after x y hlog hx
  have hnone := (start_adds (hlog ▸ List.mem_append_right before List.mem_cons_self)).2
  simp [hnone] at hx

/-- What the daemon logs on its way out. -/
theorem shutdown_adds {env : Env} {last : Iteration} {e : Entry} (he : e ∈ shutdown env last) :
    e.time = last.now ∧ ¬ RestartsTimer e := by
  simp only [shutdown, List.mem_append, List.mem_singleton] at he
  rcases he with (rfl | he) | rfl
  · exact ⟨rfl, (chatter_stderr _ _).no_restart⟩
  · rw [mem_notify he]
    exact ⟨rfl, by simp [RestartsTimer, IsPing]⟩
  · exact ⟨rfl, (chatter_stderr _ _).no_restart⟩

/-- A run stays muted exactly when all its iterations are harmless; the shutdown plays no
part. -/
theorem muted_daemon_iff (env : Env) (first : Iteration) (run : List Iteration)
    (last : Option Iteration) :
    Muted verdict IsPing (daemon env first run last) ↔
      Meets (iterate env) (Harmless env) (start env first) run := by
  have hloop : Muted verdict IsPing (run.foldl (iterate env) (start env first)).log ↔
      Meets (iterate env) (Harmless env) (start env first) run := by
    have hend : Throughout (iterate env) (fun m : Monitor => Muted verdict IsPing m.log)
        (start env first) run ↔ Muted verdict IsPing (run.foldl (iterate env) _).log :=
      throughout_iff_at_end muted_of_iterate (start env first) run
    rw [← hend]
    exact throughout_iff_meets (P := fun m : Monitor => Muted verdict IsPing m.log)
      (fun _ => True) (fun _ _ _ _ _ => trivial) (fun _ it _ hm => muted_iterate_iff it hm)
      trivial (muted_start env first) run
  rw [← hloop]
  cases last with
  | none => simp [daemon]
  | some last => exact muted_append_of_quiet fun e he h => (shutdown_adds he).2 (.inl h)

/-- An iteration keeps the log in order. -/
theorem chronicle_iterate (env : Env) (now : Int) (m : Monitor) (it : Iteration)
    (hm : Chronicle now m.log) (hreads : (now :: [it.now]).Pairwise (· ≤ ·)) :
    Chronicle it.now (iterate env m it).log := by
  obtain ⟨new, hlog, hnew⟩ := iterate_adds env m it
  rw [hlog]
  exact hm.append (by simpa using hreads) hnew

/-- The log of a whole run is in order. -/
theorem chronicle_daemon (env : Env) (first : Iteration) (run : List Iteration)
    (last : Option Iteration) (hclock : (readings first run last).Pairwise (· ≤ ·)) :
    ∃ now, Chronicle now (daemon env first run last) := by
  have hloop : Chronicle ((run.flatMap (fun it => [it.now])).getLastD first.now)
      (run.foldl (iterate env) (start env first)).log := by
    exact clocked_invariant (chronicle_iterate env) (chronicle_start env first)
      (hclock.sublist (by simp [readings]))
  cases last with
  | none => exact ⟨_, by simpa [daemon] using hloop⟩
  | some last =>
      have hafter := pairwise_after_last hclock
      refine ⟨last.now, hloop.append (by simpa using hafter) ?_⟩
      intro e he
      exact ⟨(shutdown_adds he).1, fun h => (shutdown_adds he).2 (.inr h)⟩

/-- In a muted chronicle a critical poll is followed by no keepalive while the condition
persists, so systemd's timer has run out a period later. -/
theorem fires_of_muted {usec now : Int} {log : List Entry} (hlog : Chronicle now log)
    (hmuted : Muted verdict IsPing log) : SuppressesWatchdog usec log where
  muted := hmuted
  fires := by
    rintro before x rest later rfl hx hrest hlater e he hrestarts
    have hlast : e.time ≤ x.time := by
      have hpairs := List.pairwise_append.mp hlog.inOrder
      rcases List.mem_append.mp he with he | he
      · exact (hpairs.2.2 e he x List.mem_cons_self).1
      · rcases List.mem_cons.mp he with rfl | he
        · exact le_refl _
        · exfalso
          rcases hrestarts with hping | hready
          · obtain ⟨mid, after, rfl⟩ := List.append_of_mem he
            obtain ⟨z, hz, hgood⟩ := hmuted before mid after x e rfl hx hping
            exact hrest z (List.mem_append_left _ hz) hgood
          · have hxe : InOrder x e := (List.pairwise_cons.mp hpairs.2.1).1 e he
            exact hxe.2 (by simp [hx]) hready
    omega

/-- **The watchdog is suppressed as documented** in exactly the runs which do no harm: in
which, after a critical poll, every iteration up to the next one that counts finds its
ping not due or cannot send it. -/
theorem suppresses_iff (env : Env) (first : Iteration) (run : List Iteration)
    (last : Option Iteration) (hclock : (readings first run last).Pairwise (· ≤ ·)) :
    SuppressesWatchdog (gWatchdogUsec env) (daemon env first run last) ↔
      Meets (iterate env) (Harmless env) (start env first) run := by
  rw [← muted_daemon_iff env first run last]
  obtain ⟨now, hchronicle⟩ := chronicle_daemon env first run last hclock
  exact ⟨fun h => h.muted, fires_of_muted hchronicle⟩

/-- An iteration under systemd in which every datagram is sent. -/
def iterationAt (now : Int) (edac : EdacFile) : Iteration where
  now := now
  edac := edac
  statusReply := .sent
  pingReply := .sent

/-- The environment which the service unit sets up. -/
def unitEnv : Env where
  watchdogUsec := some 30000000
  notifySocket := some "/run/systemd/notify"

/-- A critical poll, and another one before a ping falls due. -/
theorem suppresses_critical_at_ten_and_twenty :
    SuppressesWatchdog (gWatchdogUsec unitEnv)
      (daemon unitEnv (iterationAt 0 (.holds 0))
        [iterationAt 10000000 (.holds 2000), iterationAt 20000000 (.holds 4000)] none) :=
  (suppresses_iff unitEnv _ _ none (by decide)).mpr
    ⟨fun h => absurd h (by decide), fun _ => .inl (by decide), trivial⟩

/-- With the unit's period of 30 s, a critical poll 10 s after the start is followed by a
ping 5 s later. -/
theorem pinged_after_critical_poll :
    ¬ SuppressesWatchdog (gWatchdogUsec unitEnv)
        (daemon unitEnv (iterationAt 0 (.holds 0))
          [iterationAt 10000000 (.holds 2000), iterationAt 15000000 (.holds 2000)] none) := by
  intro h
  obtain ⟨-, hharmless, -⟩ := (muted_daemon_iff _ _ _ _).mp h.muted
  rcases hharmless (by decide) with hcounts | hdue | hsend
  · exact absurd hcounts (by decide)
  · exact absurd hdue (by decide)
  · exact absurd hsend (by decide)

end FaultOracle.Watchdog
