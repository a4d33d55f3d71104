import Mathlib.Algebra.BigOperators.Fin
import FaultOracle.EdacTrace
import FaultOracle.GuardedRuns

/-!
# Races on the kernel-side counters

`increment_counter` of `ebpf/edac_trace.bpf.c` on several CPUs.  A CPU looks its key up, and in
a second step adds to the value it has found, or inserts a new one.  Each step is atomic, and
between the two any other CPU may run.

`BPF_NOEXIST` makes the insertion fail when another CPU was first, and the program does not look
at the result: the call has counted nothing.  `counted_iff`: the counters are right exactly when
every insertion finds its key still absent.
-/

namespace FaultOracle.Ebpf

open GuardedRuns InsertionDict

/-- Where a CPU is in `increment_counter`: not in it, before the lookup of a key, and behind it
with a pointer to the value or without one. -/
inductive CpuPhase
  | idle
  | lookup (k : CounterKey)
  | add (k : CounterKey)
  | insert (k : CounterKey)
deriving DecidableEq, Repr

/-- A program calls `increment_counter` on a CPU, or the CPU makes its next step. -/
inductive CpuAction (ι : Type)
  | call (cpu : ι) (k : CounterKey)
  | next (cpu : ι)
deriving DecidableEq, Repr

/-- The map, and the CPUs.  The last three fields belong to the model: the calls made, those
which have counted, and those whose insertion has failed. -/
structure Cpus (ι : Type) where
  counters : Counters
  phase : ι → CpuPhase
  calls : List CounterKey
  counted : List CounterKey
  lost : List CounterKey

/-- The empty map, and no program running. -/
def Cpus.start (ι : Type) : Cpus ι where
  counters := []
  phase := fun _ => .idle
  calls := []
  counted := []
  lost := []

section Steps

variable {ι : Type} [DecidableEq ι]

/-- The CPU is somewhere else. -/
def Cpus.goto (m : Cpus ι) (cpu : ι) (p : CpuPhase) : Cpus ι :=
  { m with phase := Function.update m.phase cpu p }

@[simp] theorem goto_counters (m : Cpus ι) (cpu : ι) (p : CpuPhase) :
    (m.goto cpu p).counters = m.counters := rfl

@[simp] theorem goto_phase (m : Cpus ι) (cpu : ι) (p : CpuPhase) :
    (m.goto cpu p).phase = Function.update m.phase cpu p := rfl

@[simp] theorem goto_calls (m : Cpus ι) (cpu : ι) (p : CpuPhase) :
    (m.goto cpu p).calls = m.calls := rfl

@[simp] theorem goto_counted (m : Cpus ι) (cpu : ι) (p : CpuPhase) :
    (m.goto cpu p).counted = m.counted := rfl

@[simp] theorem goto_lost (m : Cpus ι) (cpu : ι) (p : CpuPhase) :
    (m.goto cpu p).lost = m.lost := rfl

/-- `__sync_fetch_and_add(val, 1)`; no entry of the map is ever deleted, and `val` points to
that of the key. -/
def Cpus.fetchAndAdd (m : Cpus ι) (k : CounterKey) : Cpus ι :=
  { m with
    counters := setItem k ((m.counters.lookup k).getD 0 + 1) m.counters
    counted := k :: m.counted }

/-- `bpf_map_update_elem(&counters, &k, &one, BPF_NOEXIST)`, the result of which is dropped. -/
def Cpus.updateNoExist (m : Cpus ι) (k : CounterKey) : Cpus ι :=
  match m.counters.lookup k with
  | some _ => { m with lost := k :: m.lost }
  | none =>
      if m.counters.length < countersMaxEntries then
        { m with counters := m.counters ++ [(k, 1)], counted := k :: m.counted }
      else { m with lost := k :: m.lost }

/-- One step.  A CPU runs one program to its end before it starts another. -/
def cpuStep (m : Cpus ι) : CpuAction ι → Cpus ι
  | .call cpu k =>
      match m.phase cpu with
      | .idle => { m.goto cpu (.lookup k) with calls := k :: m.calls }
      | _ => m
  | .next cpu =>
      match m.phase cpu with
      | .idle => m
      | .lookup k =>
          match m.counters.lookup k with
          | some _ => m.goto cpu (.add k)
          | none => m.goto cpu (.insert k)
      | .add k => (m.fetchAndAdd k).goto cpu .idle
      | .insert k => (m.updateNoExist k).goto cpu .idle

/-- A call which no other CPU interrupts is the `incrementCounter` of one program. -/
theorem counters_alone {m : Cpus ι} {cpu : ι} (hidle : m.phase cpu = .idle)
    (type severity mc : Nat) :
    ([.call cpu ⟨type, severity, mc⟩, .next cpu, .next cpu].foldl cpuStep m).counters =
      incrementCounter type severity mc m.counters := by
  simp only [List.foldl_cons, List.foldl_nil, cpuStep, hidle, goto_phase, Function.update_self,
    goto_counters, incrementCounter]
  cases hval : m.counters.lookup ⟨type, severity, mc⟩ with
  | none =>
      simp only [goto_phase, Function.update_self, Cpus.updateNoExist, goto_counters, hval]
      by_cases hroom : m.counters.length < countersMaxEntries
      · simp [hroom]
      · simp [hroom]
  | some val =>
      simp only [goto_phase, Function.update_self, Cpus.fetchAndAdd, goto_counters, hval,
        Option.getD_some]

/-- The map has room for what a step inserts. -/
def Room (m : Cpus ι) : CpuAction ι → Bool
  | .call _ _ => true
  | .next cpu =>
      match m.phase cpu with
      | .insert _ => decide (m.counters.length < countersMaxEntries)
      | _ => true

/-- What a step inserts is not there. -/
def Unraced (m : Cpus ι) : CpuAction ι → Bool
  | .call _ _ => true
  | .next cpu =>
      match m.phase cpu with
      | .insert k => (m.counters.lookup k).isNone
      | _ => true

/-- The value of a counter. -/
def Cpus.value (m : Cpus ι) (k : CounterKey) : UInt64 := (m.counters.lookup k).getD 0

/-- Every counter is the number of calls made for its key. -/
def Cpus.Counted (m : Cpus ι) : Prop := ∀ k, (m.value k).toNat = m.calls.count k

/-! ## What one step does to the counters -/

section Effects

variable {m : Cpus ι} {cpu : ι} {k other : CounterKey}

omit [DecidableEq ι] in
/-- A counter's value after an atomic addition. -/
theorem value_fetchAndAdd :
    (m.fetchAndAdd k).value other = if k = other then m.value k + 1 else m.value other := by
  by_cases h : k = other
  · rw [if_pos h, ← h, Cpus.value, Cpus.fetchAndAdd, lookup_setItem_self, Option.getD_some,
      Cpus.value]
  · rw [if_neg h, Cpus.value, Cpus.fetchAndAdd, lookup_setItem_ne (Ne.symm h), Cpus.value]

omit [DecidableEq ι] in
/-- An insertion of an absent key is an addition. -/
theorem updateNoExist_absent (habsent : m.counters.lookup k = none)
    (hroom : m.counters.length < countersMaxEntries) : m.updateNoExist k = m.fetchAndAdd k := by
  have hkey : k ∉ m.counters.map Prod.fst := by
    intro hmem
    obtain ⟨item, hitem, rfl⟩ := List.mem_map.mp hmem
    simpa using List.lookup_eq_none_iff.mp habsent item hitem
  rw [Cpus.updateNoExist, habsent, Cpus.fetchAndAdd, habsent, Option.getD_none,
    setItem_of_not_mem hkey, UInt64.zero_add]
  exact if_pos hroom

omit [DecidableEq ι] in
/-- An insertion of a present key does nothing to the map. -/
theorem updateNoExist_present {val : UInt64} (hpresent : m.counters.lookup k = some val) :
    m.updateNoExist k = { m with lost := k :: m.lost } := by
  rw [Cpus.updateNoExist, hpresent]

/-- The call which a CPU is in, counted under its key. -/
def CpuPhase.pending : CpuPhase → CounterKey → Nat
  | .idle, _ => 0
  | .lookup k', k | .add k', k | .insert k', k => if k' = k then 1 else 0

variable [Fintype ι]

/-- The calls for a key which are still running. -/
def Cpus.inFlight (m : Cpus ι) (k : CounterKey) : Nat := ∑ cpu, (m.phase cpu).pending k

/-- Going on trades the pending count of one phase for that of the other. -/
theorem inFlight_goto (m : Cpus ι) (cpu : ι) (p : CpuPhase) (k : CounterKey) :
    (m.goto cpu p).inFlight k + (m.phase cpu).pending k = m.inFlight k + p.pending k := by
  have hrest : ∑ c ∈ Finset.univ.erase cpu, ((m.goto cpu p).phase c).pending k =
      ∑ c ∈ Finset.univ.erase cpu, (m.phase c).pending k := by
    refine Finset.sum_congr rfl fun c hc => ?_
    rw [goto_phase, Function.update_of_ne (Finset.ne_of_mem_erase hc)]
  have hhere : ((m.goto cpu p).phase cpu).pending k = p.pending k := by
    rw [goto_phase, Function.update_self]
  rw [Cpus.inFlight, Cpus.inFlight, ← Finset.add_sum_erase _ _ (Finset.mem_univ cpu), hrest, hhere,
    ← Finset.add_sum_erase _ (fun c => (m.phase c).pending k) (Finset.mem_univ cpu)]
  omega

/-- Every call has counted, is lost or is still running, and a counter is the number of calls
which have counted, modulo its width. -/
structure Tallied (m : Cpus ι) : Prop where
  value : ∀ k, m.value k = UInt64.ofNat (m.counted.count k)
  calls : ∀ k, m.calls.count k = m.counted.count k + m.lost.count k + m.inFlight k

/-- A CPU goes on with the call it is in. -/
theorem Tallied.goto (h : Tallied m) {p : CpuPhase} (hp : p.pending = (m.phase cpu).pending) :
    Tallied (m.goto cpu p) := by
  refine ⟨h.value, fun k => ?_⟩
  have hflight := inFlight_goto m cpu p k
  rw [hp] at hflight
  have hcalls := h.calls k
  simp only [goto_calls, goto_counted, goto_lost]
  omega

/-- A call enters. -/
theorem Tallied.enter (h : Tallied m) (hidle : m.phase cpu = .idle) :
    Tallied { m.goto cpu (.lookup k) with calls := k :: m.calls } := by
  refine ⟨h.value, fun other => ?_⟩
  have hflight := inFlight_goto m cpu (.lookup k) other
  rw [hidle] at hflight
  have hcalls := h.calls other
  show (k :: m.calls).count other =
    m.counted.count other + m.lost.count other + (m.goto cpu (.lookup k)).inFlight other
  simp only [CpuPhase.pending, List.count_cons, beq_iff_eq] at hflight ⊢
  omega

/-- A call leaves, and has counted. -/
theorem Tallied.count (h : Tallied m) (hcpu : (m.phase cpu).pending = (CpuPhase.add k).pending) :
    Tallied ((m.fetchAndAdd k).goto cpu .idle) := by
  refine ⟨fun other => ?_, fun other => ?_⟩
  · show (m.fetchAndAdd k).value other = UInt64.ofNat ((k :: m.counted).count other)
    rw [value_fetchAndAdd, List.count_cons, h.value k, h.value other]
    by_cases hk : k = other
    · rw [if_pos hk, if_pos (beq_iff_eq.mpr hk), UInt64.ofNat_add, hk]
      rfl
    · rw [if_neg hk, if_neg (by simpa using hk), Nat.add_zero]
  · have hflight := inFlight_goto (m.fetchAndAdd k) cpu .idle other
    have hsame : (m.fetchAndAdd k).inFlight other = m.inFlight other := rfl
    have hphase : ((m.fetchAndAdd k).phase cpu).pending = (CpuPhase.add k).pending := hcpu
    have hcalls := h.calls other
    rw [hsame, hphase] at hflight
    show m.calls.count other = (k :: m.counted).count other + m.lost.count other +
      ((m.fetchAndAdd k).goto cpu .idle).inFlight other
    simp only [CpuPhase.pending, List.count_cons, beq_iff_eq] at hflight ⊢
    omega

/-- A call leaves, and is lost. -/
theorem Tallied.lose (h : Tallied m) (hcpu : m.phase cpu = .insert k) :
    Tallied (Cpus.goto { m with lost := k :: m.lost } cpu .idle) := by
  refine ⟨h.value, fun other => ?_⟩
  have hflight := inFlight_goto { m with lost := k :: m.lost } cpu .idle other
  have hsame : Cpus.inFlight { m with lost := k :: m.lost } other = m.inFlight other := rfl
  have hcalls := h.calls other
  rw [hsame, hcpu] at hflight
  show m.calls.count other = m.counted.count other + (k :: m.lost).count other +
    (Cpus.goto { m with lost := k :: m.lost } cpu .idle).inFlight other
  simp only [CpuPhase.pending, List.count_cons, beq_iff_eq] at hflight ⊢
  omega

/-- **Step lemma.**  With room in the map, every step keeps the tally. -/
theorem tallied_cpuStep {a : CpuAction ι} (h : Tallied m) (hroom : Room m a = true) :
    Tallied (cpuStep m a) := by
  cases a with
  | call cpu k =>
      rw [cpuStep]
      cases hphase : m.phase cpu with
      | idle => exact h.enter hphase
      | _ => exact h
  | next cpu =>
      rw [cpuStep]
      cases hphase : m.phase cpu with
      | idle => exact h
      | lookup k =>
          simp only
          cases m.counters.lookup k with
          | none => exact h.goto (by rw [hphase]; rfl)
          | some val => exact h.goto (by rw [hphase]; rfl)
      | add k => exact h.count (by rw [hphase])
      | insert k =>
          simp only
          cases hval : m.counters.lookup k with
          | none =>
              have hlength : m.counters.length < countersMaxEntries := by
                simpa [Room, hphase] using hroom
              rw [updateNoExist_absent hval hlength]
              exact h.count (by rw [hphase]; rfl)
          | some val =>
              rw [updateNoExist_present hval]
              exact h.lose hphase

omit [Fintype ι] in
/-- A call is lost exactly by an insertion which another CPU has raced. -/
theorem lost_cpuStep {a : CpuAction ι} (hroom : Room m a = true) :
    (cpuStep m a).lost = [] ↔ m.lost = [] ∧ Unraced m a = true := by
  cases a with
  | call cpu k =>
      rw [cpuStep, Unraced]
      cases m.phase cpu <;> simp
  | next cpu =>
      rw [cpuStep, Unraced]
      cases hphase : m.phase cpu with
      | idle => simp
      | lookup k => cases hval : m.counters.lookup k <;> simp [hval]
      | add k => simp [Cpus.fetchAndAdd]
      | insert k =>
          simp only [goto_lost]
          cases hval : m.counters.lookup k with
          | none =>
              have hlength : m.counters.length < countersMaxEntries := by
                simpa [Room, hphase] using hroom
              rw [updateNoExist_absent hval hlength]
              simp [Cpus.fetchAndAdd]
          | some val =>
              rw [updateNoExist_present hval]
              simp

/-! ## Runs -/

variable {run : List (CpuAction ι)}

/-- A run with room keeps the tally. -/
theorem tallied_run (h : Tallied m) (hroom : Meets cpuStep (fun m a => Room m a = true) m run) :
    Tallied (run.foldl cpuStep m) :=
  (throughout_of_meets (fun _ _ h hroom => tallied_cpuStep h hroom) h hroom).at_end

omit [Fintype ι] in
/-- A run with room loses nothing exactly when no step races. -/
theorem lost_run (hroom : Meets cpuStep (fun m a => Room m a = true) m run) :
    (run.foldl cpuStep m).lost = [] ↔
      m.lost = [] ∧ Meets cpuStep (fun m a => Unraced m a = true) m run := by
  induction run generalizing m with
  | nil => simp [Meets]
  | cons a run ih =>
      rw [List.foldl_cons, ih hroom.2, lost_cpuStep hroom.1, Meets, and_assoc]

omit [DecidableEq ι] in
theorem tallied_start : Tallied (Cpus.start ι) := by
  refine ⟨fun _ => rfl, fun k => ?_⟩
  simp [Cpus.start, Cpus.inFlight, CpuPhase.pending]

/-- **The counters.**  Let any number of CPUs run in any interleaving, with room in the map for
every insertion, until no call is left running.  Then each counter is the number of calls made
for its key exactly when every insertion has found its key absent, and no counter has
overflowed. -/
theorem counted_iff (run : List (CpuAction ι))
    (hroom : Meets cpuStep (fun m a => Room m a = true) (Cpus.start ι) run)
    (hidle : ∀ cpu, (run.foldl cpuStep (Cpus.start ι)).phase cpu = .idle) :
    (run.foldl cpuStep (Cpus.start ι)).Counted ↔
      Meets cpuStep (fun m a => Unraced m a = true) (Cpus.start ι) run ∧
        ∀ k, (run.foldl cpuStep (Cpus.start ι)).calls.count k < 2 ^ 64 := by
  have htallied := tallied_run tallied_start hroom
  have hlost := lost_run hroom
  generalize run.foldl cpuStep (Cpus.start ι) = m at hidle htallied hlost ⊢
  have hflight : ∀ k, m.inFlight k = 0 := by
    intro k
    simp [Cpus.inFlight, hidle, CpuPhase.pending]
  have hcalls : ∀ k, m.calls.count k = m.counted.count k + m.lost.count k := by
    intro k
    rw [htallied.calls k, hflight k, Nat.add_zero]
  have hvalue : ∀ k, (m.value k).toNat = m.counted.count k % 2 ^ 64 := by
    intro k
    rw [htallied.value k, UInt64.toNat_ofNat']
  rw [show Meets cpuStep (fun m a => Unraced m a = true) (Cpus.start ι) run ↔ m.lost = [] by
    simpa [Cpus.start] using hlost.symm]
  constructor
  · intro h
    have hexact : ∀ k, m.lost.count k = 0 ∧ m.calls.count k < 2 ^ 64 := by
      intro k
      have hk := h k
      have hmod := Nat.mod_lt (m.counted.count k) (Nat.two_pow_pos 64)
      have hle := Nat.mod_le (m.counted.count k) (2 ^ 64)
      rw [hvalue, hcalls] at hk
      rw [hcalls]
      omega
    refine ⟨List.eq_nil_iff_forall_not_mem.mpr fun k hk => ?_, fun k => (hexact k).2⟩
    exact absurd (hexact k).1 (Nat.ne_of_gt (List.count_pos_iff.mpr hk))
  · intro ⟨hnone, hfits⟩ k
    have hk := hcalls k
    rw [hnone, List.count_nil, Nat.add_zero] at hk
    rw [hvalue, ← hk, Nat.mod_eq_of_lt (hfits k)]

end Effects

end Steps

/-- Two CPUs with the first two events of a key: both look it up before either inserts it. -/
def racedRun : List (CpuAction (Fin 2)) :=
  [.call 0 ⟨1, 0, 0⟩, .call 1 ⟨1, 0, 0⟩, .next 0, .next 1, .next 0, .next 1]

/-- One after the other. -/
def turnsRun : List (CpuAction (Fin 2)) :=
  [.call 0 ⟨1, 0, 0⟩, .next 0, .next 0, .call 1 ⟨1, 0, 0⟩, .next 1, .next 1]

/-- CPUs which take turns count every event. -/
theorem turns_counted : (turnsRun.foldl cpuStep (Cpus.start (Fin 2))).Counted := by
  refine (counted_iff turnsRun (by decide +kernel) (by decide +kernel)).mpr ⟨by decide +kernel, ?_⟩
  intro k
  exact lt_of_le_of_lt List.count_le_length (by decide +kernel)

/-- The two calls leave the counter at one. -/
theorem raced_call_lost :
    Meets cpuStep (fun m a => Room m a = true) (Cpus.start (Fin 2)) racedRun ∧
      (∀ cpu, (racedRun.foldl cpuStep (Cpus.start (Fin 2))).phase cpu = .idle) ∧
      ¬ (racedRun.foldl cpuStep (Cpus.start (Fin 2))).Counted := by
  refine ⟨by decide +kernel, by decide +kernel, fun h => ?_⟩
  exact absurd (h ⟨1, 0, 0⟩) (by decide +kernel)

end FaultOracle.Ebpf
