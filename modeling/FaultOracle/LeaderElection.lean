import Mathlib.Data.NNRat.Defs
import Mathlib.Algebra.Order.Floor.Ring
import Mathlib.Data.Rat.Floor
import FaultOracle.GuardedRuns

/-!
# Leader election over a Lease

`remediation/leader_election.py` lets several controllers compete for one Lease.
A candidate PUTs a Lease body which names itself as the holder, and takes the
answer as its leadership: success makes it the leader, any failure makes it a
follower, and `is_leader` reads the flag back.  The body carries no
`metadata.resourceVersion`, and neither the holder on record nor the renewal time
is ever read.

The system below has any number of candidates, one Lease, and a clock.  The
property of interest is `Leadership`: no two leaders, and no leader whose last
renewal is `duration_s` old.  `leadership_iff` names exactly the runs that keep
it: those where nobody acquires while somebody else leads and where no time
passes over a leader's deadline.  Nothing in the code makes a run respect this.
-/

namespace FaultOracle.LeaderElection

/-- The fields of a Lease which `_lease_body` writes. -/
structure Lease where
  name : String
  leaseNamespace : String
  holderIdentity : String
  leaseDurationSeconds : Int
  acquireTime : Int
  renewTime : Int
deriving DecidableEq, Repr

/-- A `LeaderElector`. -/
structure LeaderElector where
  leaseNamespace : String
  leaseName : String
  identity : String
  durationS : Int
  leader : Bool
  k8s : Bool
deriving DecidableEq, Repr

/-- `LeaderElector.__init__`; outside a cluster there is a single instance. -/
def newElector (inCluster : Bool) (leaseNamespace leaseName identity : String)
    (durationS : Int) : LeaderElector where
  leaseNamespace := leaseNamespace
  leaseName := leaseName
  identity := identity
  durationS := durationS
  leader := !inCluster
  k8s := inCluster

/-- `_now_iso` cuts the clock to whole seconds. -/
def nowIso (now : ℚ) : Int := ⌊now⌋

/-- `_lease_body`. -/
def leaseBody (e : LeaderElector) (now : ℚ) : Lease where
  name := e.leaseName
  leaseNamespace := e.leaseNamespace
  holderIdentity := e.identity
  leaseDurationSeconds := e.durationS
  acquireTime := nowIso now
  renewTime := nowIso now

/-- How the PUT of `try_acquire` ends.  A connection may break before or after the
server has applied the request; `otherException` is one that neither `except`
clause catches. -/
inductive PutReply
  | ok
  | httpError (code : Nat)
  | osError (applied : Bool)
  | otherException (applied : Bool)
deriving DecidableEq, Repr

/-- `try_acquire`: the elector afterwards and what the call returns, nothing if
the exception leaves it. -/
def tryAcquire (e : LeaderElector) (reply : PutReply) : LeaderElector × Option Bool :=
  if e.k8s = false then ({ e with leader := true }, some true)
  else
    match reply with
    | .ok => ({ e with leader := true }, some true)
    | .httpError code =>
        if code = 409 then ({ e with leader := false }, some false)
        else ({ e with leader := false }, some false)
    | .osError _ => ({ e with leader := false }, some false)
    | .otherException _ => (e, none)

/-- `is_leader`. -/
def isLeader (e : LeaderElector) : Bool := e.leader

/-- `release`, which leaves the Lease as it is. -/
def release (e : LeaderElector) : LeaderElector := { e with leader := false }

/-- The API server's side of the PUT: it creates the Lease when there is none, and
replaces it when there is one, the body naming no `resourceVersion`. -/
def applyPut (lease : Option Lease) (body : Lease) (reply : PutReply) : Option Lease :=
  match reply with
  | .ok => some body
  | .httpError _ => lease
  | .osError applied => if applied then some body else lease
  | .otherException applied => if applied then some body else lease

/-! ## Candidates, the Lease and the clock -/

variable {ι : Type*} [DecidableEq ι]

/-- The state of the system; `renewedAt` remembers when the PUT of a candidate
last succeeded. -/
structure World (ι : Type*) where
  electors : ι → LeaderElector
  lease : Option Lease
  clock : ℚ
  renewedAt : ι → Option ℚ

inductive Action (ι : Type*)
  | tryAcquire (i : ι) (reply : PutReply)
  | release (i : ι)
  | pass (time : ℚ≥0)

def step (w : World ι) : Action ι → World ι
  | .tryAcquire i reply =>
      { w with
        electors := Function.update w.electors i (tryAcquire (w.electors i) reply).1
        lease := applyPut w.lease (leaseBody (w.electors i) w.clock) reply
        renewedAt :=
          if reply = .ok then Function.update w.renewedAt i (some w.clock) else w.renewedAt }
  | .release i => { w with electors := Function.update w.electors i (release (w.electors i)) }
  | .pass time => { w with clock := w.clock + time }

/-- In-cluster candidates for one Lease, before any of them has called. -/
def start (leaseNamespace leaseName : String) (identity : ι → String) (durationS : ι → Int)
    (lease : Option Lease) (clock : ℚ) : World ι where
  electors := fun i => newElector true leaseNamespace leaseName (identity i) (durationS i)
  lease := lease
  clock := clock
  renewedAt := fun _ => none

/-- The time until which the last renewal of a candidate reaches. -/
def deadline (w : World ι) (i : ι) : Option ℚ :=
  (w.renewedAt i).map (fun r => r + (w.electors i).durationS)

/-- At most one candidate reports that it leads, and only one whose last renewal
is not yet `duration_s` old. -/
structure Leadership (w : World ι) : Prop where
  unique : ∀ i j, isLeader (w.electors i) = true → isLeader (w.electors j) = true → i = j
  fresh : ∀ i, isLeader (w.electors i) = true → ∃ d, deadline w i = some d ∧ w.clock < d

/-- What the actions of a run must respect for `Leadership`: a candidate's PUT
succeeds only while no other candidate leads, and its lease has a positive
length; and time never passes over the deadline of a leader. -/
def Respects (w : World ι) : Action ι → Prop
  | .tryAcquire i reply => reply = .ok →
      (∀ j, isLeader (w.electors j) = true → j = i) ∧ 0 < (w.electors i).durationS
  | .release _ => True
  | .pass time => ∀ i d, isLeader (w.electors i) = true → deadline w i = some d →
      w.clock + time < d

/-- Every candidate runs in the cluster. -/
def InCluster (w : World ι) : Prop := ∀ i, (w.electors i).k8s = true

omit [DecidableEq ι] in
theorem leadership_start (leaseNamespace leaseName : String) (identity : ι → String)
    (durationS : ι → Int) (lease : Option Lease) (clock : ℚ) :
    Leadership (start leaseNamespace leaseName identity durationS lease clock) where
  unique := by
    intro i j hi
    simp [start, newElector, isLeader] at hi
  fresh := by
    intro i hi
    simp [start, newElector, isLeader] at hi

/-- The only fields of an elector that a call changes are its flag. -/
theorem tryAcquire_frame (e : LeaderElector) (reply : PutReply) :
    (tryAcquire e reply).1.k8s = e.k8s ∧ (tryAcquire e reply).1.durationS = e.durationS := by
  by_cases hk8s : e.k8s = false
  · simp [tryAcquire, hk8s]
  · cases reply with
    | httpError code => by_cases hcode : code = 409 <;> simp [tryAcquire, hk8s, hcode]
    | _ => simp [tryAcquire, hk8s]

/-- In the cluster, a call which does not succeed never makes a leader. -/
theorem tryAcquire_leader_of_ne_ok {e : LeaderElector} (hk8s : e.k8s = true)
    {reply : PutReply} (hreply : reply ≠ .ok)
    (hleader : isLeader (tryAcquire e reply).1 = true) : isLeader e = true := by
  cases reply with
  | ok => exact absurd rfl hreply
  | httpError code =>
      by_cases hcode : code = 409 <;> simp [tryAcquire, isLeader, hk8s, hcode] at hleader
  | osError applied => simp [tryAcquire, isLeader, hk8s] at hleader
  | otherException applied => simpa [tryAcquire, isLeader, hk8s] using hleader

theorem tryAcquire_ok_leader (e : LeaderElector) : isLeader (tryAcquire e .ok).1 = true := by
  unfold tryAcquire isLeader
  cases e.k8s <;> simp

theorem inCluster_step {w : World ι} (h : InCluster w) (a : Action ι) :
    InCluster (step w a) := by
  intro i
  cases a with
  | tryAcquire j reply =>
      by_cases hij : i = j
      · subst hij
        simpa [step, (tryAcquire_frame _ _).1] using h i
      · simpa [step, hij] using h i
  | release j =>
      by_cases hij : i = j
      · subst hij
        simpa [step, release] using h i
      · simpa [step, hij] using h i
  | pass time => exact h i

/-- A step changes the length of nobody's lease. -/
theorem durationS_step (w : World ι) (a : Action ι) (i : ι) :
    ((step w a).electors i).durationS = (w.electors i).durationS := by
  cases a with
  | tryAcquire j reply =>
      by_cases hij : i = j
      · subst hij
        simp [step, (tryAcquire_frame _ _).2]
      · simp [step, hij]
  | release j =>
      by_cases hij : i = j
      · subst hij
        simp [step, release]
      · simp [step, hij]
  | pass time => rfl

/-- A call which does not succeed keeps `Leadership`: it can only unmake a leader. -/
theorem leadership_failed_put {w : World ι} (hin : InCluster w) (h : Leadership w) (i : ι)
    {reply : PutReply} (hreply : reply ≠ .ok) : Leadership (step w (.tryAcquire i reply)) := by
  have hback : ∀ j, isLeader ((step w (.tryAcquire i reply)).electors j) = true →
      isLeader (w.electors j) = true := by
    intro j hj
    by_cases hji : j = i
    · subst hji
      exact tryAcquire_leader_of_ne_ok (hin j) hreply (by simpa [step] using hj)
    · simpa [step, hji] using hj
  have hdeadline : ∀ j, deadline (step w (.tryAcquire i reply)) j = deadline w j := by
    intro j
    rw [deadline, deadline, durationS_step]
    simp [step, hreply]
  refine ⟨fun j k hj hk => h.unique j k (hback j hj) (hback k hk), fun j hj => ?_⟩
  obtain ⟨d, hd, hlt⟩ := h.fresh j (hback j hj)
  exact ⟨d, (hdeadline j).trans hd, hlt⟩

theorem leadership_release {w : World ι} (h : Leadership w) (i : ι) :
    Leadership (step w (.release i)) := by
  have hback : ∀ j, isLeader ((step w (.release i)).electors j) = true →
      isLeader (w.electors j) = true := by
    intro j hj
    by_cases hji : j = i
    · subst hji
      simp [step, release, isLeader] at hj
    · simpa [step, hji] using hj
  refine ⟨fun j k hj hk => h.unique j k (hback j hj) (hback k hk), fun j hj => ?_⟩
  obtain ⟨d, hd, hlt⟩ := h.fresh j (hback j hj)
  refine ⟨d, ?_, hlt⟩
  rw [deadline, durationS_step]
  exact hd

/-- The successful PUT of `i` makes it a leader with a fresh deadline, next to
whoever led before. -/
theorem leadership_successful_put (w : World ι) (i : ι) :
    Leadership (step w (.tryAcquire i .ok)) ↔
      (∀ j, isLeader (w.electors j) = true → j = i) ∧ 0 < (w.electors i).durationS := by
  have hself : isLeader ((step w (.tryAcquire i .ok)).electors i) = true := by
    simpa [step] using tryAcquire_ok_leader (w.electors i)
  have hother : ∀ j, j ≠ i →
      isLeader ((step w (.tryAcquire i .ok)).electors j) = isLeader (w.electors j) := by
    intro j hj
    simp [step, hj]
  have hdeadline : deadline (step w (.tryAcquire i .ok)) i =
      some (w.clock + (w.electors i).durationS) := by
    rw [deadline, durationS_step]
    simp [step]
  constructor
  · intro hnext
    constructor
    · intro j hj
      by_cases hji : j = i
      · exact hji
      · exact hnext.unique j i (by rw [hother j hji]; exact hj) hself
    · obtain ⟨d, hd, hlt⟩ := hnext.fresh i hself
      obtain rfl := Option.some.inj (hdeadline.symm.trans hd)
      have hclock : w.clock < w.clock + (w.electors i).durationS := hlt
      exact_mod_cast (lt_add_iff_pos_right w.clock).mp hclock
  · rintro ⟨hno, hpos⟩
    have hsole : ∀ j, isLeader ((step w (.tryAcquire i .ok)).electors j) = true → j = i := by
      intro j hj
      by_cases hji : j = i
      · exact hji
      · exact hno j (by rw [← hother j hji]; exact hj)
    refine ⟨fun j k hj hk => (hsole j hj).trans (hsole k hk).symm, fun j hj => ?_⟩
    obtain rfl := hsole j hj
    refine ⟨_, hdeadline, ?_⟩
    have hpos' : (0 : ℚ) < (w.electors j).durationS := by exact_mod_cast hpos
    exact lt_add_of_pos_right w.clock hpos'

/-- Time may pass exactly up to the deadline of a leader. -/
theorem leadership_pass {w : World ι} (h : Leadership w) (time : ℚ≥0) :
    Leadership (step w (.pass time)) ↔
      ∀ i d, isLeader (w.electors i) = true → deadline w i = some d → w.clock + time < d := by
  constructor
  · intro hnext i d hi hd
    obtain ⟨d', hd', hlt⟩ := hnext.fresh i hi
    obtain rfl := Option.some.inj (hd.symm.trans hd')
    exact hlt
  · intro hin
    refine ⟨h.unique, fun i hi => ?_⟩
    obtain ⟨d, hd, -⟩ := h.fresh i hi
    exact ⟨d, hd, hin i d hi hd⟩

/-- **One action, exactly.**  An action keeps `Leadership` if and only if it
respects the conditions. -/
theorem leadership_step_iff {w : World ι} (hin : InCluster w) (h : Leadership w)
    (a : Action ι) : Leadership (step w a) ↔ Respects w a := by
  cases a with
  | tryAcquire i reply =>
      by_cases hreply : reply = .ok
      · subst hreply
        simpa [Respects] using leadership_successful_put w i
      · exact ⟨fun _ heq => absurd heq hreply, fun _ => leadership_failed_put hin h i hreply⟩
  | release i => exact ⟨fun _ => trivial, fun _ => leadership_release h i⟩
  | pass time => exact leadership_pass h time

/-- **Every run, exactly.**  `Leadership` holds throughout a run of any number of
candidates if and only if every action of the run respects the conditions. -/
theorem leadership_iff (leaseNamespace leaseName : String) (identity : ι → String)
    (durationS : ι → Int) (lease : Option Lease) (clock : ℚ) (run : List (Action ι)) :
    GuardedRuns.Throughout step Leadership
        (start leaseNamespace leaseName identity durationS lease clock) run ↔
      GuardedRuns.Meets step Respects
        (start leaseNamespace leaseName identity durationS lease clock) run := by
  refine GuardedRuns.throughout_iff_meets InCluster ?_ ?_ ?_ ?_ run
  · exact fun _ a hin _ _ => inCluster_step hin a
  · exact fun _ a hin h => leadership_step_iff hin h a
  · exact fun _ => rfl
  · exact leadership_start leaseNamespace leaseName identity durationS lease clock

/-- Two candidates whose calls simply follow each other both lead, and a single
one still leads 15 seconds after its only renewal. -/
theorem two_leaders_and_stale_leader :
    ¬ GuardedRuns.Throughout step Leadership
        (start "monitoring" "remediation" (fun b => if b then "controller-a" else "controller-b")
          (fun _ => 15) none 0)
        [.tryAcquire true .ok, .tryAcquire false .ok] ∧
      ¬ GuardedRuns.Throughout step Leadership
        (start "monitoring" "remediation" (fun b => if b then "controller-a" else "controller-b")
          (fun _ => 15) none 0)
        [.tryAcquire true .ok, .pass 15] := by
  constructor
  · rintro ⟨-, -, hlast⟩
    exact absurd (hlast.unique true false rfl rfl) (by decide)
  · rintro ⟨-, -, hlast⟩
    obtain ⟨d, hd, hlt⟩ := hlast.fresh true rfl
    simp [deadline, step, start, newElector, tryAcquire] at hd hlt
    linarith

end FaultOracle.LeaderElection
