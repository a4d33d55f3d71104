import FaultOracle.GuardedRuns
import FaultOracle.InsertRaces

/-!
# Counting page faults by workload

The kprobe of `ebpf/workload_attr.bpf.c` on several CPUs.  One process in a hundred is sampled;
each of its faults is counted under its name and its node, and sent through a ring buffer.  A CPU
handles one fault at a time, and all of them run at once.

The node of a fault is that of its CPU, and has eight of them.  Only these can race for an entry
of the node, so however large the machine is, an entry is short by fewer than eight.
-/

namespace FaultOracle.WorkloadAccess

open GuardedRuns InsertRaces

/-- What the kprobe sees of a call of `handle_mm_fault`. -/
structure Fault where
  pidTgid : UInt64
  comm : List UInt8
  flags : UInt32
deriving DecidableEq

/-- `struct agg_key`. -/
structure AggKey where
  comm : List UInt8
  numaNode : Nat
deriving DecidableEq

/-- `struct workload_event_t`. -/
structure WorkloadEvent where
  comm : List UInt8
  pid : Nat
  tgid : Nat
  numaNode : Nat
  faultType : Nat
  timestampNs : UInt64

def maxEntries : Nat := 1024

def sampleRate : Nat := 100

def Fault.pid (f : Fault) : Nat := (f.pidTgid >>> 32).toNat

/-- The fault is not left out by the sampler. -/
def Fault.sampled (f : Fault) : Bool := f.pid % sampleRate = 0

def numaNode (cpu : Nat) : Nat := cpu / 8

def aggKey (cpu : Nat) (f : Fault) : AggKey := ⟨f.comm, numaNode cpu⟩

def workloadEvent (cpu : Nat) (f : Fault) (now : UInt64) : WorkloadEvent where
  comm := f.comm
  pid := f.pid
  tgid := (f.pidTgid &&& 0xffffffff).toNat
  numaNode := numaNode cpu
  faultType := if f.flags &&& 0x1 ≠ 0 then 1 else 0
  timestampNs := now

/-- The map `workload_access_count` with the CPUs that count in it, the fault which each CPU
handles, and what has been submitted to the ring buffer `workload_events`. -/
structure Kernel where
  access : Racers AggKey Nat
  handling : Nat → Option Fault
  events : List WorkloadEvent

def Kernel.start : Kernel := ⟨Racers.start AggKey Nat, fun _ => none, []⟩

/-- A fault on a CPU; the next access of the CPU to the map; and the end of the program, with
what `bpf_ringbuf_reserve` and `bpf_ktime_get_ns` return. -/
inductive Action
  | fault (cpu : Nat) (f : Fault)
  | next (cpu : Nat)
  | emit (cpu : Nat) (reserved : Bool) (now : UInt64)

/-- One step. -/
def step (s : Kernel) : Action → Kernel
  | .fault cpu f =>
      if s.handling cpu = none ∧ f.sampled then
        { s with
          access := InsertRaces.step maxEntries s.access (.call cpu (aggKey cpu f))
          handling := Function.update s.handling cpu (some f) }
      else s
  | .next cpu => { s with access := InsertRaces.step maxEntries s.access (.next cpu) }
  | .emit cpu reserved now =>
      match s.handling cpu with
      | none => s
      | some f =>
          if s.access.phase cpu = .idle then
            { s with
              handling := Function.update s.handling cpu none
              events := if reserved then s.events ++ [workloadEvent cpu f now] else s.events }
          else s

/-- A CPU takes its next fault when it is done with the last. -/
def OneAtATime (s : Kernel) : Action → Prop
  | .fault cpu _ => s.handling cpu = none
  | _ => True

instance (s : Kernel) : DecidablePred (OneAtATime s)
  | .fault cpu _ => inferInstanceAs (Decidable (s.handling cpu = none))
  | .next _ | .emit .. => isTrue trivial

/-- The fault is sampled and counts under the key. -/
def hits (k : AggKey) : Action → Bool
  | .fault cpu f => f.sampled && decide (aggKey cpu f = k)
  | _ => false

/-- What the action does in the map. -/
def Action.toAccess : Action → Option (InsertRaces.Action AggKey Nat)
  | .fault cpu f => if f.sampled then some (.call cpu (aggKey cpu f)) else none
  | .next cpu => some (.next cpu)
  | .emit .. => none

/-- The CPUs of a node. -/
def cpusOf (node : Nat) : Finset Nat := (Finset.range 8).image (8 * node + ·)

theorem mem_cpusOf {node cpu : Nat} : cpu ∈ cpusOf node ↔ numaNode cpu = node := by
  simp only [cpusOf, Finset.mem_image, Finset.mem_range, numaNode]
  constructor
  · rintro ⟨i, hi, rfl⟩
    omega
  · exact fun h => ⟨cpu % 8, by omega, by omega⟩

theorem card_cpusOf (node : Nat) : (cpusOf node).card = 8 := by
  rw [cpusOf, Finset.card_image_of_injective _ (fun a b h => by simpa using h), Finset.card_range]

/-- The map takes the steps of its parties. -/
theorem access_run {s : Kernel} {run : List Action} (hone : Meets step OneAtATime s run) :
    (run.foldl step s).access =
      (run.filterMap Action.toAccess).foldl (InsertRaces.step maxEntries) s.access := by
  induction run generalizing s with
  | nil => rfl
  | cons a run ih =>
      rw [List.foldl_cons, ih hone.2]
      cases a with
      | fault cpu f =>
          have hfree : s.handling cpu = none := hone.1
          cases hsampled : f.sampled with
          | true => simp [Action.toAccess, hsampled, step, hfree]
          | false => simp [Action.toAccess, hsampled, step]
      | next cpu => simp [Action.toAccess, step]
      | emit cpu reserved now =>
          have hsame : (step s (.emit cpu reserved now)).access = s.access := by
            simp only [step]
            split
            · rfl
            · split <;> rfl
          rw [hsame, List.filterMap_cons_none rfl]

/-- A CPU which handles no fault is not in the map. -/
def Rested (s : Kernel) : Prop := ∀ cpu, s.handling cpu = none → s.access.phase cpu = .idle

/-- The fault which a CPU handles counts under the key. -/
def handles (k : AggKey) (cpu : Nat) (h : Option Fault) : Bool :=
  h.any fun f => decide (aggKey cpu f = k)

theorem handles_none {k : AggKey} {cpu : Nat} : handles k cpu none = false := rfl

/-- The event has the name and the node of the key. -/
def WorkloadEvent.of (k : AggKey) (e : WorkloadEvent) : Bool :=
  decide (AggKey.mk e.comm e.numaNode = k)

/-- The events of a key, sent or to be sent. -/
def told (k : AggKey) (s : Kernel) : Nat :=
  s.events.countP (WorkloadEvent.of k) +
    among (cpusOf k.numaNode) (fun cpu => (cpu, s.handling cpu)) (fun h => handles k h.1 h.2)

/-- The event of a fault finds no room in the ring buffer. -/
def Action.refused : Action → Bool
  | .emit _ reserved _ => !reserved
  | _ => false

section Step

variable {s : Kernel} {a : Action} {k : AggKey}

theorem Rested.step (h : Rested s) (hone : OneAtATime s a) : Rested (step s a) := by
  cases a with
  | fault cpu f =>
      simp only [WorkloadAccess.step]
      split
      · intro j hj
        by_cases hcpu : j = cpu
        · subst hcpu
          simp at hj
        · have hidle := h j (by simpa [Function.update_of_ne hcpu] using hj)
          simp only [InsertRaces.step, h cpu hone]
          rwa [Function.update_of_ne hcpu]
      · exact h
  | next cpu =>
      intro j hj
      have hidle := h j hj
      by_cases hcpu : j = cpu
      · subst hcpu
        simp only [WorkloadAccess.step, InsertRaces.step, hidle]
      · simp only [WorkloadAccess.step]
        rwa [step_phase_of_ne hcpu]
  | emit cpu reserved now =>
      simp only [WorkloadAccess.step]
      split
      · exact h
      · split
        · next hidle =>
            intro j hj
            by_cases hcpu : j = cpu
            · subst hcpu
              exact hidle
            · exact h j (by simpa [Function.update_of_ne hcpu] using hj)
        · exact h

/-- A step counts a call exactly when it is a hit. -/
theorem calls_step (h : Rested s) (hone : OneAtATime s a) :
    (step s a).access.calls.count k = s.access.calls.count k + (hits k a).toNat := by
  cases a with
  | fault cpu f =>
      cases hsampled : f.sampled with
      | false => simp [WorkloadAccess.step, hits, hsampled]
      | true =>
          have hfree : s.handling cpu = none := hone
          simp only [WorkloadAccess.step, hfree, hsampled, and_self, if_true, InsertRaces.step,
            h cpu hfree, hits, Bool.true_and]
          by_cases hkey : aggKey cpu f = k
          · rw [hkey, List.count_cons_self]
            simp
          · rw [List.count_cons_of_ne hkey]
            simp [hkey]
  | next cpu =>
      rw [WorkloadAccess.step, step_next_calls]
      rfl
  | emit cpu reserved now =>
      simp only [WorkloadAccess.step, hits, Bool.toNat_false, Nat.add_zero]
      split
      · rfl
      · split <;> rfl

theorem mem_of_handles {cpu : Nat} {h : Option Fault} (hk : handles k cpu h = true) :
    cpu ∈ cpusOf k.numaNode := by
  obtain ⟨f, -, hf⟩ := (Option.any_eq_true _ _).mp hk
  exact mem_cpusOf.mpr (congrArg AggKey.numaNode (decide_eq_true_eq.mp hf))

/-- A CPU begins or ends. -/
theorem among_handling (cpu : Nat) (h : Option Fault) :
    among (cpusOf k.numaNode) (fun i => (i, Function.update s.handling cpu h i))
        (fun p => handles k p.1 p.2) + (handles k cpu (s.handling cpu)).toNat =
      among (cpusOf k.numaNode) (fun i => (i, s.handling i)) (fun p => handles k p.1 p.2) +
        (handles k cpu h).toNat := by
  have hpair : (fun i => (i, Function.update s.handling cpu h i)) =
      Function.update (fun i => (i, s.handling i)) cpu (cpu, h) := by
    funext i
    by_cases hi : i = cpu
    · rw [hi, Function.update_self, Function.update_self]
    · rw [Function.update_of_ne hi, Function.update_of_ne hi]
  rw [hpair]
  exact among_update (i := cpu) (p := (cpu, h)) (fun p => handles k p.1 p.2) mem_of_handles
    mem_of_handles

/-- A hit is told, unless the ring buffer has no room. -/
theorem told_step (hone : OneAtATime s a) :
    told k (step s a) ≤ told k s + (hits k a).toNat ∧
      (a.refused = false → told k (step s a) = told k s + (hits k a).toNat) := by
  cases a with
  | fault cpu f =>
      cases hsampled : f.sampled with
      | false => simp [WorkloadAccess.step, hits, hsampled]
      | true =>
          have hfree : s.handling cpu = none := hone
          have hmoves := among_handling (s := s) (k := k) cpu (some f)
          have hhits : hits k (.fault cpu f) = handles k cpu (some f) := by
            simp [hits, hsampled, handles]
          rw [hfree] at hmoves
          simp only [WorkloadAccess.step, hfree, hsampled, and_self, if_true, told, hhits]
          simp only [handles_none, Bool.toNat_false] at hmoves
          omega
  | next cpu => simp [WorkloadAccess.step, told, hits]
  | emit cpu reserved now =>
      simp only [WorkloadAccess.step, hits, Bool.toNat_false, Nat.add_zero]
      cases hcpu : s.handling cpu with
      | none => simp
      | some f =>
          simp only
          split
          · have hmoves := among_handling (s := s) (k := k) cpu none
            have hevent : (workloadEvent cpu f now).of k = handles k cpu (some f) := rfl
            rw [hcpu] at hmoves
            cases reserved with
            | true =>
                simp only [told, if_true, List.countP_append, List.countP_singleton, hevent]
                cases hk : handles k cpu (some f) <;>
                  simp only [hk, handles_none, Bool.toNat_false, Bool.toNat_true,
                    Bool.false_eq_true, if_true, if_false] at hmoves ⊢ <;> omega
            | false =>
                simp only [told, Action.refused, Bool.not_false, reduceCtorEq, false_imp_iff,
                  and_true, Bool.false_eq_true, if_false]
                simp only [handles_none, Bool.toNat_false] at hmoves ⊢
                omega
          · simp

end Step

/-- What a run has counted and told of a key. -/
structure Tracked (k : AggKey) (run : List Action) (s : Kernel) : Prop where
  rested : Rested s
  calls : s.access.calls.count k = run.countP (hits k)
  told_le : told k s ≤ run.countP (hits k)
  told_eq : (∀ a ∈ run, a.refused = false) → told k s = run.countP (hits k)

/-- **Run lemma.** -/
theorem tracked_run {run : List Action} (hone : Meets step OneAtATime .start run) (k : AggKey) :
    Tracked k run (run.foldl step .start) := by
  have hstart : Tracked k [] .start :=
    ⟨fun _ _ => rfl, rfl, by simp [told, Kernel.start, among, handles],
      fun _ => by simp [told, Kernel.start, among, handles]⟩
  suffices h : ∀ (before rest : List Action) (s : Kernel), Tracked k before s →
      Meets step OneAtATime s rest → Tracked k (before ++ rest) (rest.foldl step s) from
    h [] run .start hstart hone
  intro before rest
  induction rest generalizing before with
  | nil =>
      intro s h _
      rwa [List.append_nil]
  | cons a rest ih =>
      intro s h hrest
      have hcount : (before ++ [a]).countP (hits k) =
          before.countP (hits k) + (hits k a).toNat := by
        rw [List.countP_append, List.countP_singleton]
        cases hits k a <;> rfl
      obtain ⟨hle, heq⟩ := told_step (k := k) hrest.1
      have hnext : Tracked k (before ++ [a]) (step s a) := by
        refine ⟨h.rested.step hrest.1, ?_, ?_, fun hall => ?_⟩
        · rw [calls_step h.rested hrest.1, h.calls, hcount]
        · rw [hcount]
          exact hle.trans (Nat.add_le_add_right h.told_le _)
        · rw [hcount, heq (hall a (by simp)), h.told_eq fun b hb => hall b (by simp [hb])]
      have hmore := ih (before ++ [a]) (step s a) hnext hrest.2
      rwa [List.append_assoc, List.singleton_append] at hmore

/-- **A workload is short by fewer than eight on a node.**  Let faults come on any number of CPUs,
one at a time on each.  When all of them are handled, a workload which has an entry for a node
has been counted at most once for each of its sampled faults there, and fewer than eight are
missing; one without an entry has had no sampled fault there, or the map is full.  The events of
the ring buffer are no more than the faults, and just as many if it always had room. -/
theorem access_short_lt_eight (run : List Action) (hone : Meets step OneAtATime .start run)
    (hdone : ∀ cpu, (run.foldl step .start).handling cpu = none) (k : AggKey)
    (hfits : run.countP (hits k) < 2 ^ 64) :
    let s := run.foldl step .start
    (s.access.Present k → (s.access.value k).toNat ≤ run.countP (hits k) ∧
      run.countP (hits k) < (s.access.value k).toNat + 8) ∧
    (¬ s.access.Present k →
      run.countP (hits k) = 0 ∨ maxEntries ≤ s.access.entries.length) ∧
    s.events.countP (WorkloadEvent.of k) ≤ run.countP (hits k) ∧
    ((∀ a ∈ run, a.refused = false) →
      s.events.countP (WorkloadEvent.of k) = run.countP (hits k)) := by
  have htracked := tracked_run hone k
  have hbounded : Bounded maxEntries (cpusOf k.numaNode) k (run.foldl step .start).access := by
    rw [access_run hone]
    refine bounded_run _ fun cpu hcall => ?_
    obtain ⟨a, -, ha⟩ := List.mem_filterMap.mp hcall
    -- only a fault on a CPU of the node counts under the key
    cases a with
    | fault cpu' f =>
        simp only [Action.toAccess, Option.ite_none_right_eq_some, Option.some.injEq,
          InsertRaces.Action.call.injEq] at ha
        obtain ⟨-, rfl, rfl⟩ := ha
        exact mem_cpusOf.mpr rfl
    | next => simp [Action.toAccess] at ha
    | emit => simp [Action.toAccess] at ha
  generalize run.foldl step .start = s at hdone htracked hbounded ⊢
  have habout : among (cpusOf k.numaNode) s.access.phase (Phase.about k) = 0 := by
    simp [among, htracked.rested _ (hdone _), Phase.about]
  have htold : told k s = s.events.countP (WorkloadEvent.of k) := by
    simp [told, among, hdone, handles]
  have hcalls := hbounded.calls
  rw [habout, Nat.add_zero, htracked.calls] at hcalls
  refine ⟨fun hpresent => ?_, fun habsent => ?_, htold ▸ htracked.told_le,
    fun hall => htold ▸ htracked.told_eq hall⟩
  · have hlost := hbounded.present hpresent
    rw [hbounded.value, UInt64.toNat_ofNat', Nat.mod_eq_of_lt (by omega)]
    rw [card_cpusOf] at hlost
    omega
  · obtain ⟨hzero, hlost⟩ := hbounded.absent habsent
    omega

/-- Two CPUs of a node with the first two faults of a process. -/
def firstFaults : List Action :=
  let f : Fault := ⟨429496729601, [115, 104], 1⟩
  [.fault 0 f, .fault 1 f, .next 0, .next 1, .next 0, .next 1, .emit 0 true 5, .emit 1 true 6]

theorem access_short_lt_eight_first :
    let s := firstFaults.foldl step .start
    (s.access.value ⟨[115, 104], 0⟩).toNat = 1 ∧
      firstFaults.countP (hits ⟨[115, 104], 0⟩) < (s.access.value ⟨[115, 104], 0⟩).toNat + 8 ∧
      s.events.countP (WorkloadEvent.of ⟨[115, 104], 0⟩) = 2 := by
  have hdone : ∀ cpu, (firstFaults.foldl step .start).handling cpu = none := by
    intro cpu
    rcases cpu with _ | _ | cpu <;> rfl
  have h := access_short_lt_eight firstFaults (by decide +kernel) hdone ⟨[115, 104], 0⟩
    (by decide +kernel)
  have hpresent : (firstFaults.foldl step .start).access.Present ⟨[115, 104], 0⟩ := rfl
  exact ⟨by decide +kernel, (h.1 hpresent).2,
    (h.2.2.2 (by decide +kernel)).trans (by decide +kernel)⟩

end FaultOracle.WorkloadAccess
