import Mathlib.Algebra.BigOperators.Group.List.Basic
import Mathlib.Data.List.Count
import Mathlib.Data.List.Induction
import FaultOracle.RestartLimiter

/-!
# The polls of the self-healing operator

The main loop of `operator/main.go` asks Prometheus, at every tick, which collectors are
down, and goes through the answer in its order.  What it deletes passes `restartRecord` first;
the record is charged before the pod is looked up, so a grant is spent whether or not a pod
is deleted with it.

A tick carries what the loop reads while it is handled: the answer of Prometheus and, for each
result, the clock and the replies of the Kubernetes API.
-/

namespace FaultOracle.Operator

open TimedLogs

/-! ## The loop -/

/-- A pod, as the API lists it. -/
structure Pod where
  name : String
  nodeName : String
deriving DecidableEq

/-- A result of the query, with what the loop reads while it handles it: the clock, the pods
which carry the label of the DaemonSet (or the error), and the reply to `Delete`. -/
structure Visit where
  metric : List (String × String)
  clock : Readings
  pods : Except String (List Pod)
  deletion : Except String Unit

/-- `r.Metric[name]`, which is empty for a label that is not there. -/
def Visit.label (v : Visit) (name : String) : String := (v.metric.lookup name).getD ""

/-- The answer of Prometheus. -/
structure PrometheusResponse where
  status : String
  result : List Visit

/-- `queryPrometheus`; the reply is an error when the request, the transfer or the decoding of
the body failed. -/
def queryPrometheus (reply : Except String PrometheusResponse) : Except String (List Visit) :=
  match reply with
  | .error e => .error e
  | .ok pr =>
      if pr.status ≠ "success" then .error ("prometheus returned status: " ++ pr.status)
      else .ok pr.result

/-- `findPodOnNode`: the first pod which runs on the node. -/
def findPodOnNode (pods : Except String (List Pod)) (daemonSet node : String) :
    Except String String :=
  match pods with
  | .error e => .error e
  | .ok items =>
      match items.find? (fun pod => pod.nodeName = node) with
      | some pod => .ok pod.name
      | none => .error ("no pod for daemonset " ++ daemonSet ++ " on node " ++ node)

/-- The flags which the loop reads. -/
structure Flags where
  daemonSet : String
  maxRestarts : Int
  dryRun : Bool

inductive LogLine
  | queryFailed (error : String)
  | collectorDown (key : RestartKey)
  | rateLimited (key : RestartKey)
  | podNotFound (node error : String)
  | wouldDelete (podName : String) (key : RestartKey)
  | deleteFailed (podName error : String)
  | podDeleted (podName : String) (key : RestartKey)

/-- A call of `Delete`, with the pair it is made for and the time at which it was granted. -/
structure Deletion where
  podName : String
  key : RestartKey
  granted : Int

/-- The restart record with its grants, the calls of `Delete` and the log. -/
structure Loop where
  run : Run
  deletions : List Deletion
  log : List LogLine

def newLoop : Loop where
  run := newRun
  deletions := []
  log := []

/-- What happens to a pod once its restart is granted. -/
def restartPod (flags : Flags) (l : Loop) (key : RestartKey) (v : Visit) : Loop :=
  match findPodOnNode v.pods flags.daemonSet key.node with
  | .error e => { l with log := l.log ++ [.podNotFound key.node e] }
  | .ok podName =>
      if flags.dryRun then { l with log := l.log ++ [.wouldDelete podName key] }
      else
        { l with
          deletions := l.deletions ++ [⟨podName, key, v.clock.event⟩]
          log := l.log ++
            [match v.deletion with
              | .error e => .deleteFailed podName e
              | .ok _ => .podDeleted podName key] }

/-- The body of the loop over the results. -/
def visit (flags : Flags) (l : Loop) (v : Visit) : Loop :=
  let node := v.label "node"
  let collector := v.label "collector"
  if node = "" ∨ collector = "" then l
  else
    let key : RestartKey := ⟨node, collector⟩
    let allowed := answer flags.maxRestarts l.run ⟨key, v.clock⟩
    let l : Loop :=
      { l with
        run := step flags.maxRestarts l.run ⟨key, v.clock⟩
        log := l.log ++ [.collectorDown key] }
    if allowed then restartPod flags l key v
    else { l with log := l.log ++ [.rateLimited key] }

/-- One tick of the loop. -/
def tick (flags : Flags) (l : Loop) (reply : Except String PrometheusResponse) : Loop :=
  match queryPrometheus reply with
  | .error e => { l with log := l.log ++ [.queryFailed e] }
  | .ok results => results.foldl (visit flags) l

/-! ## What the loop asks of the record -/

/-- The call of `allowed` which a result leads to. -/
def Visit.call? (v : Visit) : Option Call :=
  if v.label "node" = "" ∨ v.label "collector" = "" then none
  else some ⟨⟨v.label "node", v.label "collector"⟩, v.clock⟩

/-- The calls of a tick. -/
def calls (reply : Except String PrometheusResponse) : List Call :=
  match queryPrometheus reply with
  | .error _ => []
  | .ok results => results.filterMap Visit.call?

/-- A deletion does not change the limiter. -/
theorem restartPod_run (flags : Flags) (l : Loop) (key : RestartKey) (v : Visit) :
    (restartPod flags l key v).run = l.run := by
  unfold restartPod
  split
  · rfl
  · split <;> rfl

/-- A visit calls the limiter at most once. -/
theorem visit_run (flags : Flags) (l : Loop) (v : Visit) :
    (visit flags l v).run = v.call?.toList.foldl (step flags.maxRestarts) l.run := by
  by_cases hnamed : v.label "node" = "" ∨ v.label "collector" = ""
  · simp [visit, Visit.call?, hnamed]
  · simp only [visit, Visit.call?, hnamed, if_false, Option.toList_some, List.foldl_cons,
      List.foldl_nil]
    split
    · rw [restartPod_run]
    · rfl

/-- The calls of some visits, in turn. -/
theorem visits_run (flags : Flags) (l : Loop) (results : List Visit) :
    (results.foldl (visit flags) l).run =
      (results.filterMap Visit.call?).foldl (step flags.maxRestarts) l.run := by
  induction results generalizing l with
  | nil => rfl
  | cons v results ih =>
      rw [List.foldl_cons, ih, visit_run]
      cases hcall : v.call? with
      | none => simp [hcall]
      | some c => simp [hcall]

/-- The calls of a tick, in turn. -/
theorem tick_run (flags : Flags) (l : Loop) (reply : Except String PrometheusResponse) :
    (tick flags l reply).run = (calls reply).foldl (step flags.maxRestarts) l.run := by
  unfold tick calls
  split
  · rfl
  · exact visits_run flags l _

/-- **The loop and the record.**  The grants of the loop are those of the record, called with
the results that name a node and a collector. -/
theorem ticks_run (flags : Flags) (l : Loop) (replies : List (Except String PrometheusResponse)) :
    (replies.foldl (tick flags) l).run =
      (replies.flatMap calls).foldl (step flags.maxRestarts) l.run := by
  induction replies generalizing l with
  | nil => rfl
  | cons reply replies ih =>
      rw [List.foldl_cons, ih, tick_run, List.flatMap_cons, List.foldl_append]

/-! ## What is deleted -/

/-- A deletion which a result accounts for: the result named the pair, and the pod was the
first one listed on the node. -/
def Accounts (flags : Flags) (v : Visit) (d : Deletion) : Prop :=
  v.call? = some ⟨d.key, v.clock⟩ ∧ d.granted = v.clock.event ∧
    findPodOnNode v.pods flags.daemonSet d.key.node = .ok d.podName

/-- What handling a result can do to the pods: nothing, or one deletion with its grant. -/
theorem visit_cases (flags : Flags) (l : Loop) (v : Visit) :
    ((visit flags l v).deletions = l.deletions ∧
      l.run.granted <+: (visit flags l v).run.granted) ∨
    ∃ d, flags.dryRun = false ∧ Accounts flags v d ∧
      (visit flags l v).deletions = l.deletions ++ [d] ∧
      (visit flags l v).run.granted = l.run.granted ++ [(d.key, d.granted)] := by
  rw [visit_run]
  by_cases hnamed : v.label "node" = "" ∨ v.label "collector" = ""
  · left
    simp [visit, Visit.call?, hnamed]
  have hcall : v.call? = some ⟨⟨v.label "node", v.label "collector"⟩, v.clock⟩ := by
    simp [Visit.call?, hnamed]
  simp only [hcall, Option.toList_some, List.foldl_cons, List.foldl_nil]
  by_cases hanswer : answer flags.maxRestarts l.run
      ⟨⟨v.label "node", v.label "collector"⟩, v.clock⟩ = true
  · simp only [visit, hnamed, if_false, hanswer, if_true, restartPod]
    cases hpod : findPodOnNode v.pods flags.daemonSet (v.label "node") with
    | error e => exact .inl ⟨rfl, by simp [step, hanswer]⟩
    | ok podName =>
        cases hdry : flags.dryRun with
        | true => exact .inl ⟨rfl, by simp [step, hanswer]⟩
        | false =>
            refine .inr ⟨⟨podName, ⟨v.label "node", v.label "collector"⟩, v.clock.event⟩, rfl,
              ⟨hcall, rfl, hpod⟩, rfl, by simp [step, hanswer]⟩
  · refine .inl ⟨by simp [visit, hnamed, hanswer], ?_⟩
    have hkept := step_denied (r := l.run) (by simpa using hanswer)
    exact hkept.symm ▸ List.prefix_refl _

/-- Every deletion has a grant of its own and a result which accounts for it. -/
structure Charged (flags : Flags) (seen : Visit → Prop) (l : Loop) : Prop where
  granted : (l.deletions.map fun d => (d.key, d.granted)).Sublist l.run.granted
  reported : ∀ d ∈ l.deletions, flags.dryRun = false ∧ ∃ v, seen v ∧ Accounts flags v d

/-- A visit charges its deletion to its own call. -/
theorem charged_visit {flags : Flags} {seen : Visit → Prop} {l : Loop} {v : Visit}
    (h : Charged flags seen l) (hv : seen v) : Charged flags seen (visit flags l v) := by
  rcases visit_cases flags l v with ⟨hsame, hgranted⟩ | ⟨d, hdry, hd, hdeletions, hgranted⟩
  · refine ⟨?_, by rw [hsame]; exact h.reported⟩
    rw [hsame]
    exact h.granted.trans hgranted.sublist
  · refine ⟨?_, ?_⟩
    · rw [hdeletions, hgranted, List.map_append]
      exact h.granted.append (List.Sublist.refl _)
    · rw [hdeletions]
      intro e he
      rcases List.mem_append.mp he with he | he
      · exact h.reported e he
      · obtain rfl := List.mem_singleton.mp he
        exact ⟨hdry, v, hv, hd⟩

/-- The results of a query which succeeded. -/
def Reported (reply : Except String PrometheusResponse) (v : Visit) : Prop :=
  ∃ results, queryPrometheus reply = .ok results ∧ v ∈ results

/-- A tick charges its deletions to its own calls. -/
theorem charged_tick {flags : Flags} {seen : Visit → Prop} {l : Loop}
    {reply : Except String PrometheusResponse} (h : Charged flags seen l)
    (hseen : ∀ v, Reported reply v → seen v) : Charged flags seen (tick flags l reply) := by
  cases hquery : queryPrometheus reply with
  | error e =>
      simp only [tick, hquery]
      exact ⟨h.granted, h.reported⟩
  | ok results =>
      simp only [tick, hquery]
      exact List.foldlRecOn results (visit flags) h
        fun l hl v hv => charged_visit hl (hseen v ⟨results, hquery, hv⟩)

/-- Every deletion of a run is charged to a call. -/
theorem charged_ticks (flags : Flags) (replies : List (Except String PrometheusResponse)) :
    Charged flags (fun v => ∃ reply ∈ replies, Reported reply v)
      (replies.foldl (tick flags) newLoop) := by
  refine List.foldlRecOn replies (tick flags) ⟨List.Sublist.refl _, by simp [newLoop]⟩ ?_
  exact fun l hl reply hmem => charged_tick hl fun v hv => ⟨reply, hmem, hv⟩

/-- The granted times of the deletions picked by `W` are among the grants picked by `W`. -/
theorem Charged.filter_length_le {flags : Flags} {seen : Visit → Prop} {l : Loop}
    (h : Charged flags seen l) (W : RestartKey × Int → Bool) :
    (l.deletions.filter (fun d => W (d.key, d.granted))).length ≤
      (l.run.granted.filter W).length := by
  have hfilter := (h.granted.filter W).length_le
  rwa [List.filter_map, List.length_map] at hfilter

/-- **What the operator deletes.**  On a nondecreasing clock, whatever Prometheus and the API
answer: a pair costs at most `--max-restarts` pods an hour, two deletions are granted at least
`cooldownDuration` apart, so at most 120 pods are deleted in an hour; and each deletion is made
outside of a dry run, for a pair which a query that succeeded reported, of the first pod listed
on its node. -/
theorem deletions_limited (flags : Flags) (replies : List (Except String PrometheusResponse))
    (hclock : ((replies.flatMap calls).flatMap (fun c => c.clock.toList)).Pairwise (· ≤ ·)) :
    (∀ key a, ((replies.foldl (tick flags) newLoop).deletions.filter
        (fun d => d.key = key ∧ a ≤ d.granted ∧ d.granted < a + hour)).length ≤
      flags.maxRestarts.toNat) ∧
    (replies.foldl (tick flags) newLoop).deletions.Pairwise
      (fun d e => d.granted + cooldownDuration ≤ e.granted) ∧
    (∀ a, ((replies.foldl (tick flags) newLoop).deletions.filter
        (fun d => a ≤ d.granted ∧ d.granted < a + hour)).length ≤ 120) ∧
    ∀ d ∈ (replies.foldl (tick flags) newLoop).deletions, flags.dryRun = false ∧
      ∃ v, (∃ reply ∈ replies, Reported reply v) ∧ Accounts flags v d := by
  obtain ⟨now, hlimits⟩ := limits_run flags.maxRestarts hclock
  have hrun : (replies.foldl (tick flags) newLoop).run =
      (replies.flatMap calls).foldl (step flags.maxRestarts) newRun :=
    ticks_run flags newLoop replies
  rw [← hrun] at hlimits
  have hcharged := charged_ticks flags replies
  have hspaced : (replies.foldl (tick flags) newLoop).deletions.Pairwise
      (fun d e => d.granted + cooldownDuration ≤ e.granted) :=
    List.pairwise_map.mp ((hlimits.spaced.imp fun hgap => hgap rfl).sublist hcharged.granted)
  refine ⟨?_, hspaced, ?_, hcharged.reported⟩
  · intro key a
    have hle := hcharged.filter_length_le (fun g => g.1 = key ∧ a ≤ g.2 ∧ g.2 < a + hour)
    refine hle.trans ?_
    rw [grants_filter_length key (fun t => a ≤ t ∧ t < a + hour)]
    exact (hlimits.admitted key).window_le _ (fun s t hs ht => by omega)
  · intro a
    have htimes : (((replies.foldl (tick flags) newLoop).deletions.filter
        (fun d => a ≤ d.granted ∧ d.granted < a + hour)).map Deletion.granted).Pairwise
        (fun s t => s + cooldownDuration ≤ t) :=
      List.pairwise_map.mpr (hspaced.filter _)
    have hwindow : ∀ t ∈ ((replies.foldl (tick flags) newLoop).deletions.filter
        (fun d => a ≤ d.granted ∧ d.granted < a + hour)).map Deletion.granted,
        a ≤ t ∧ t < a + hour := by
      intro t ht
      obtain ⟨d, hd, rfl⟩ := List.mem_map.mp ht
      simpa using (List.mem_filter.mp hd).2
    have hcount := nsmul_lt_of_pairwise htimes (fun t ht => (hwindow t ht).1)
      (fun t ht => (hwindow t ht).2) (by simp only [hour, cooldownDuration, second]; omega)
    have hhour : hour = 3600000000000 := by decide
    have hcooldown : cooldownDuration = 30000000000 := by decide
    rw [List.length_map, nsmul_eq_mul, hcooldown] at hcount
    omega

/-- A result for a collector of a node, read at `t`, with the pod of the node. -/
def downAt (node collector podName : String) (t : Int) : Visit where
  metric := [("__name__", "fault_resilience_collector_up"), ("node", node),
    ("collector", collector)]
  clock := { since := t, cutoff := t + 1, event := t + 2, global := t + 3 }
  pods := .ok [⟨"pod-0", "node-0"⟩, ⟨podName, node⟩]
  deletion := .ok ()

/-- Two collectors of a node, both down. -/
def twoDown (t : Int) : Except String PrometheusResponse :=
  .ok
    { status := "success"
      result := [downAt "node-1" "edac" "pod-1" t, downAt "node-1" "mce" "pod-1" (t + 10)] }

/-- The flags as they are by default, but for the limit. -/
def flagsWith (maxRestarts : Int) : Flags where
  daemonSet := "hw-fault-exporter"
  maxRestarts := maxRestarts
  dryRun := false

/-- The limits over three ticks, one of them without an answer. -/
theorem deletions_limited_two_down :
    (([twoDown 0, .error "prometheus query failed: timeout", twoDown (60 * second)].foldl
      (tick (flagsWith 1)) newLoop).deletions.map fun d => (d.podName, d.key.collector)) =
        [("pod-1", "edac"), ("pod-1", "mce")] ∧
      ∀ d ∈ ([twoDown 0, .error "prometheus query failed: timeout", twoDown (60 * second)].foldl
        (tick (flagsWith 1)) newLoop).deletions, (flagsWith 1).dryRun = false ∧
        ∃ v, (∃ reply ∈ [twoDown 0, .error "prometheus query failed: timeout",
          twoDown (60 * second)], Reported reply v) ∧ Accounts (flagsWith 1) v d :=
  ⟨by decide +kernel, (deletions_limited (flagsWith 1) _ (by decide +kernel)).2.2.2⟩

end FaultOracle.Operator
