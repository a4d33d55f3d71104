import FaultOracle.WatchdogMonitor

/-!
# The pace of the watchdog pings

`hw-fault-monitor.c` looks at its ping timer once in an iteration, so a ping which falls due is
sent by the next iteration, and a poll that finds a critical increase keeps it back.  The comment
calls half the watchdog period the best practice: "even if one ping is delayed, the next ping
still arrives before the deadline".

`pings_in_time` is the arithmetic behind it.  Between two keepalives lie at most half a period
without a ping due, one iteration on either side of it, and nothing else, so that iterations a
quarter of a period apart are near enough.
-/

namespace FaultOracle.Watchdog

open GuardedRuns

/-- The times of the pings which get through in a run of the loop. -/
def pingTimes (env : Env) : Monitor → List Iteration → List Int
  | _, [] => []
  | m, it :: run =>
      if Pings env m it then it.now :: pingTimes env (iterate env m it) run
      else pingTimes env (iterate env m it) run

/-- systemd listens: it has named a socket for the notifications. -/
def Listens (env : Env) : Prop := ∃ sockPath, env.notifySocket = some sockPath ∧ sockPath ≠ ""

/-- The iteration polls no critical increase. -/
def Quiet (m : Monitor) (it : Iteration) : Prop :=
  Counts m it → readEdacCeCount it.edac - m.prevCeCount ≤ ceCriticalThreshold

instance (m : Monitor) (it : Iteration) : Decidable (Quiet m it) :=
  inferInstanceAs (Decidable (_ → _))

/-- Two moments a quarter of the watchdog period apart, or nearer. -/
def QuarterApart (usec : Int) (s t : Int) : Prop := 4 * (t - s) ≤ usec

instance (usec s t : Int) : Decidable (QuarterApart usec s t) :=
  inferInstanceAs (Decidable (_ ≤ _))

/-- Two keepalives near enough for systemd. -/
def InTime (usec : Int) (s t : Int) : Prop := t - s ≤ usec

instance (usec s t : Int) : Decidable (InTime usec s t) := inferInstanceAs (Decidable (_ ≤ _))

/-! ## One iteration -/

section Iterate

variable {env : Env} {m : Monitor} {it : Iteration}

/-- Only a critical increase suppresses the ping. -/
theorem poll_of_quiet (hquiet : Quiet m it) : (poll env m it).2 = false := by
  unfold poll
  by_cases hdue : it.now - m.lastPollUsec ≥ pollIntervalSec * 1000000
  · rw [if_pos hdue]
    by_cases hcounts : readEdacCeCount it.edac ≥ 0 ∧ m.prevCeCount ≥ 0
    · have hdelta := hquiet ⟨hdue, hcounts⟩
      simp only [if_pos hcounts]
      apply decide_eq_false
      omega
    · simp only [if_neg hcounts]
  · rw [if_neg hdue]

/-- A datagram which the socket takes is a notification. -/
theorem sdNotifyManual_sent {reply : SendReply} (hlistens : Listens env) (hsent : reply = .sent) :
    sdNotifyManual env reply = 1 := by
  obtain ⟨sockPath, hsocket, hne⟩ := hlistens
  subst hsent
  unfold sdNotifyManual
  rw [hsocket]
  exact if_neg hne

/-- A ping restarts the timer, and nothing else does. -/
theorem iterate_lastWatchdogPingUsec (m : Monitor) (hlistens : Listens env)
    (hsent : it.pingReply = .sent) :
    (iterate env m it).lastWatchdogPingUsec =
      if Pings env m it then it.now else m.lastWatchdogPingUsec := by
  have hpoll := poll_lastWatchdogPingUsec env m it
  have hgets := sdNotifyManual_sent hlistens hsent
  unfold iterate ping
  rw [hpoll]
  by_cases hping : Pings env m it
  · rw [if_pos hping, if_pos ⟨hping.1, hping.2.1⟩]
  · have hdue : ¬ ((poll env m it).2 = false ∧
        it.now - m.lastWatchdogPingUsec ≥ watchdogIntervalUsec env) :=
      fun h => hping ⟨h.1, h.2, hgets⟩
    rw [if_neg hping, if_neg hdue, hpoll]

/-- Where no ping gets through the timer has not run out. -/
theorem waiting_of_not_pings (hlistens : Listens env) (hsent : it.pingReply = .sent)
    (hquiet : Quiet m it) (hping : ¬ Pings env m it) :
    it.now - m.lastWatchdogPingUsec < watchdogIntervalUsec env := by
  by_cases hdue : it.now - m.lastWatchdogPingUsec ≥ watchdogIntervalUsec env
  · exact (hping ⟨poll_of_quiet hquiet, hdue, sdNotifyManual_sent hlistens hsent⟩).elim
  · omega

end Iterate

/-! ## Runs -/

section Runs

variable {env : Env} {usec : Int}

theorem watchdogIntervalUsec_eq (henv : env.watchdogUsec = some usec) (hpos : 0 < usec) :
    watchdogIntervalUsec env = usec / 2 := by
  have husec : gWatchdogUsec env = usec := by
    unfold gWatchdogUsec
    rw [henv]
    rfl
  unfold watchdogIntervalUsec
  rw [husec, if_pos hpos]

/-- The latest keepalive was sent at `base`, and the latest iteration was at `prev`: the ping
timer was set within a quarter of a period of the one, and the other is within three quarters. -/
theorem pings_inTime (henv : env.watchdogUsec = some usec) (hpos : 0 < usec)
    (hlistens : Listens env) {m : Monitor} {run : List Iteration} {prev base : Int}
    (hsent : ∀ it ∈ run, it.pingReply = .sent)
    (htimer : QuarterApart usec base m.lastWatchdogPingUsec)
    (hprev : 4 * (prev - base) ≤ 3 * usec)
    (hspaced : (prev :: run.map Iteration.now).IsChain (QuarterApart usec))
    (hquiet : Meets (iterate env) Quiet m run) :
    (base :: (pingTimes env m run ++ [(run.map Iteration.now).getLastD prev])).IsChain
      (InTime usec) := by
  induction run generalizing m prev base with
  | nil =>
      have hend : InTime usec base prev := by
        unfold InTime
        omega
      exact List.isChain_cons_cons.mpr ⟨hend, List.IsChain.singleton prev⟩
  | cons it run ih =>
      obtain ⟨hquiet, hrest⟩ := hquiet
      obtain ⟨hstep, hspaced⟩ := List.isChain_cons_cons.mp hspaced
      obtain ⟨hit, hrun⟩ := List.forall_mem_cons.mp hsent
      have htimes := iterate_lastWatchdogPingUsec m hlistens hit
      rw [List.map_cons, List.getLastD_cons, pingTimes]
      unfold QuarterApart at htimer hstep
      by_cases hping : Pings env m it
      · have hnow : InTime usec base it.now := by
          unfold InTime
          omega
        rw [if_pos hping] at htimes ⊢
        refine List.isChain_cons_cons.mpr ⟨hnow, ih hrun ?_ ?_ hspaced hrest⟩
        · unfold QuarterApart
          rw [htimes]
          omega
        · omega
      · have hwaiting := waiting_of_not_pings hlistens hit hquiet hping
        rw [watchdogIntervalUsec_eq henv hpos] at hwaiting
        rw [if_neg hping] at htimes ⊢
        refine ih hrun ?_ ?_ hspaced hrest
        · unfold QuarterApart
          rw [htimes]
          omega
        · omega

/-- When a log says that `msg` reached systemd. -/
def notified (msg : String) (log : List Entry) : List Int :=
  (log.filter fun e => e.report = .notified msg).map Entry.time

/-- The pings of a log. -/
def pingsOf (log : List Entry) : List Int := notified "WATCHDOG=1" log

theorem notified_append (msg : String) (log new : List Entry) :
    notified msg (log ++ new) = notified msg log ++ notified msg new := by
  unfold notified
  rw [List.filter_append, List.map_append]

theorem notified_eq_nil {msg : String} {log : List Entry}
    (h : ∀ e ∈ log, e.report ≠ .notified msg) : notified msg log = [] := by
  have hnone : ∀ e ∈ log, ¬ decide (e.report = .notified msg) = true :=
    fun e he heq => h e he (of_decide_eq_true heq)
  unfold notified
  rw [List.filter_eq_nil_iff.mpr hnone, List.map_nil]

theorem pingsOf_poll (env : Env) (m : Monitor) (it : Iteration) :
    pingsOf (poll env m it).1.log = pingsOf m.log := by
  rcases poll_cases env m it with ⟨-, -, hlog⟩ | ⟨-, ceDelta, chatter, -, hlog, hchatter⟩
  · rw [hlog]
  · have hnone : ∀ e ∈ (⟨it.now, .counted ceDelta⟩ :: chatter : List Entry),
        e.report ≠ .notified "WATCHDOG=1" := by
      intro e he hping
      rcases List.mem_cons.mp he with rfl | he
      · cases hping
      · exact (hchatter e he).no_restart (.inl hping)
    rw [hlog, pingsOf, notified_append, notified_eq_nil hnone, List.append_nil, pingsOf]

/-- The pings of the log are those of the iterations. -/
theorem pingsOf_foldl (env : Env) (run : List Iteration) (m : Monitor) :
    pingsOf (run.foldl (iterate env) m).log = pingsOf m.log ++ pingTimes env m run := by
  induction run generalizing m with
  | nil => exact (List.append_nil _).symm
  | cons it run ih =>
      have hone : pingsOf (iterate env m it).log =
          pingsOf m.log ++ if Pings env m it then [it.now] else [] := by
        rw [iterate_log, pingsOf, notified_append]
        change pingsOf (poll env m it).1.log ++ _ = _
        rw [pingsOf_poll]
        by_cases hping : Pings env m it
        · rw [if_pos hping, if_pos hping]
          rfl
        · rw [if_neg hping, if_neg hping]
          rfl
      rw [List.foldl_cons, ih, hone, pingTimes, List.append_assoc]
      by_cases hping : Pings env m it
      · rw [if_pos hping, if_pos hping]
        rfl
      · rw [if_neg hping, if_neg hping]
        rfl

/-- Before its loop the daemon sends no ping. -/
theorem pingsOf_start (env : Env) (first : Iteration) : pingsOf (start env first).log = [] := by
  apply notified_eq_nil
  intro e he hping
  rcases start_log he with hchatter | rfl
  · exact hchatter.no_restart (.inl hping)
  · exact absurd (Report.notified.inj hping) (by decide)

theorem pingsOf_daemon (env : Env) (first : Iteration) (run : List Iteration)
    (last : Option Iteration) :
    pingsOf (daemon env first run last) = pingTimes env (start env first) run := by
  have hshutdown : pingsOf ((last.map (shutdown env)).getD []) = [] := by
    apply notified_eq_nil
    cases last with
    | none => exact fun e he => absurd he List.not_mem_nil
    | some last => exact fun e he hping => (shutdown_adds he).2 (.inl hping)
  have happend : pingsOf (daemon env first run last) =
      pingsOf (run.foldl (iterate env) (start env first)).log ++
        pingsOf ((last.map (shutdown env)).getD []) := notified_append _ _ _
  rw [happend, pingsOf_foldl, pingsOf_start, hshutdown, List.append_nil, List.nil_append]

/-- `READY=1` is sent once, before the loop. -/
theorem notified_ready (first : Iteration) (run : List Iteration) (last : Option Iteration)
    (hlistens : Listens env) (hsent : first.pingReply = .sent) :
    notified "READY=1" (daemon env first run last) = [first.now] := by
  have hstart : notified "READY=1" (start env first).log = [first.now] := by
    have hready : notify env first.pingReply first.now "READY=1" =
        [⟨first.now, .notified "READY=1"⟩] := by
      rw [notify, if_pos (sdNotifyManual_sent hlistens hsent)]
    have hbefore : ∀ text, ∀ e ∈ notifyStatus env first.statusReply first.now text,
        e.report ≠ .notified "READY=1" :=
      fun text e he heq => (chatter_notifyStatus he).no_restart (.inr heq)
    change notified "READY=1" ((_ ++ _) ++ notify env first.pingReply first.now "READY=1") = _
    rw [hready, notified_append, notified_eq_nil, List.nil_append]
    · rfl
    · refine List.forall_mem_append.mpr ⟨List.forall_mem_singleton.mpr nofun, ?_⟩
      split
      · exact List.forall_mem_cons.mpr ⟨nofun, hbefore _⟩
      · exact List.forall_mem_cons.mpr ⟨nofun, hbefore _⟩
  have hloop : ∀ m : Monitor, notified "READY=1" (run.foldl (iterate env) m).log =
      notified "READY=1" m.log := by
    intro m
    induction run generalizing m with
    | nil => rfl
    | cons it run ih =>
        obtain ⟨new, hlog, hnew⟩ := iterate_adds env m it
        rw [List.foldl_cons, ih, hlog, notified_append,
          notified_eq_nil fun e he => (hnew e he).2, List.append_nil]
  have hshutdown : notified "READY=1" ((last.map (shutdown env)).getD []) = [] := by
    apply notified_eq_nil
    cases last with
    | none => exact fun e he => absurd he List.not_mem_nil
    | some last => exact fun e he heq => (shutdown_adds he).2 (.inr heq)
  rw [daemon, notified_append, hloop, hstart, hshutdown, List.append_nil]

/-- **The pace of the pings.**  Let the daemon send `READY=1` at `ready`, and let it read its
clock no later than a quarter of a period after that and again in every iteration, as far apart at
most.  If systemd listens, every datagram is taken and no poll finds a critical increase, then
`READY=1`, all the pings which get through and the end of the run follow each other within a
period.  The log has `READY=1` under the first reading of the clock, which is made right after
it. -/
theorem pings_in_time (env : Env) (usec ready : Int) (first : Iteration) (run : List Iteration)
    (last : Option Iteration) (henv : env.watchdogUsec = some usec) (hpos : 0 < usec)
    (hlistens : Listens env) (hsent : ∀ it ∈ first :: run, it.pingReply = .sent)
    (hspaced : (ready :: first.now :: run.map Iteration.now).IsChain (QuarterApart usec))
    (hquiet : Meets (iterate env) Quiet (start env first) run) :
    notified "READY=1" (daemon env first run last) = [first.now] ∧
    (ready :: (notified "WATCHDOG=1" (daemon env first run last) ++
      [(run.map Iteration.now).getLastD first.now])).IsChain (InTime usec) := by
  obtain ⟨hfirst, hrun⟩ := List.forall_mem_cons.mp hsent
  obtain ⟨hstart, hspaced⟩ := List.isChain_cons_cons.mp hspaced
  refine ⟨notified_ready first run last hlistens hfirst, ?_⟩
  change (ready :: (pingsOf (daemon env first run last) ++ _)).IsChain (InTime usec)
  rw [pingsOf_daemon]
  refine pings_inTime henv hpos hlistens hrun hstart ?_ hspaced hquiet
  unfold QuarterApart at hstart
  omega

/-- An unreadable file among the readings, under the service unit's period of 30 s. -/
theorem unreadable_pings_in_time :
    notified "READY=1" (daemon unitEnv (iterationAt 0 (.holds 0)) [iterationAt 7500000 (.holds 3),
        iterationAt 15000000 .missing, iterationAt 21000000 (.holds 900)] none) = [0] ∧
    ([0, 15000000, 21000000] : List Int).IsChain (InTime 30000000) :=
  pings_in_time unitEnv 30000000 0 (iterationAt 0 (.holds 0))
    [iterationAt 7500000 (.holds 3), iterationAt 15000000 .missing,
      iterationAt 21000000 (.holds 900)] none rfl (by decide) ⟨_, rfl, by decide⟩ (by decide)
    (by decide) (by decide)

end Runs

end FaultOracle.Watchdog
