import FaultOracle.CounterRaces
import FaultOracle.InsertRaces

/-!
# How much the races cost

`increment_counter` of `ebpf/edac_trace.bpf.c` loses what is raced.  A CPU can be raced only by
the first entry of a key, so however long the system runs a counter falls short by less than one
count for each CPU.
-/

namespace FaultOracle.Ebpf

open InsertRaces InsertionDict

/-- Where a CPU is, as a phase of a party. -/
def CpuPhase.toPhase : CpuPhase → Phase CounterKey
  | .idle => .idle
  | .lookup k => .lookup k
  | .add k => .add k
  | .insert k => .insert k

def CpuAction.toAction {ι : Type} : CpuAction ι → Action CounterKey ι
  | .call cpu k => .call cpu k
  | .next cpu => .next cpu

/-- The CPUs as parties which count in one map. -/
def Cpus.racers {ι : Type} (m : Cpus ι) : Racers CounterKey ι where
  entries := m.counters
  phase cpu := (m.phase cpu).toPhase
  calls := m.calls
  counted := m.counted
  lost := m.lost

section Racers

variable {ι : Type} [DecidableEq ι]

theorem racers_goto (m : Cpus ι) (cpu : ι) (p : CpuPhase) :
    (m.goto cpu p).racers =
      { m.racers with phase := Function.update m.racers.phase cpu p.toPhase } := by
  simp only [Cpus.racers, goto_counters, goto_phase, goto_calls, goto_counted, goto_lost,
    Racers.mk.injEq, true_and, and_true]
  funext i
  by_cases h : i = cpu
  · rw [h, Function.update_self, Function.update_self]
  · rw [Function.update_of_ne h, Function.update_of_ne h]

/-- The CPUs take the steps of the parties. -/
theorem racers_cpuStep (m : Cpus ι) (a : CpuAction ι) :
    (cpuStep m a).racers = step countersMaxEntries m.racers a.toAction := by
  have hphase : ∀ cpu, m.racers.phase cpu = (m.phase cpu).toPhase := fun _ => rfl
  cases a with
  | call cpu k =>
      simp only [cpuStep, step, CpuAction.toAction, hphase]
      cases m.phase cpu with
      | idle =>
          exact congrArg (fun r : Racers CounterKey ι => { r with calls := k :: m.calls })
            (racers_goto m cpu (.lookup k))
      | lookup | add | insert => rfl
  | next cpu =>
      simp only [cpuStep, step, CpuAction.toAction, hphase]
      cases m.phase cpu with
      | idle => rfl
      | lookup k =>
          have hentries : m.racers.entries.lookup k = m.counters.lookup k := rfl
          simp only [CpuPhase.toPhase, hentries]
          cases m.counters.lookup k with
          | none => exact racers_goto m cpu (.insert k)
          | some val => exact racers_goto m cpu (.add k)
      | add k => exact racers_goto (m.fetchAndAdd k) cpu .idle
      | insert k =>
          have hentries : m.racers.entries.lookup k = m.counters.lookup k := rfl
          have hlength : m.racers.entries.length = m.counters.length := rfl
          simp only [CpuPhase.toPhase, Cpus.updateNoExist, hentries]
          cases m.counters.lookup k with
          | some val => exact racers_goto { m with lost := k :: m.lost } cpu .idle
          | none =>
              simp only [hlength]
              split
              · exact racers_goto { m with
                  counters := m.counters ++ [(k, 1)], counted := k :: m.counted } cpu .idle
              · exact racers_goto { m with lost := k :: m.lost } cpu .idle

theorem racers_run (run : List (CpuAction ι)) (m : Cpus ι) :
    (run.foldl cpuStep m).racers =
      (run.map CpuAction.toAction).foldl (step countersMaxEntries) m.racers := by
  induction run generalizing m with
  | nil => rfl
  | cons a run ih => rw [List.foldl_cons, ih, racers_cpuStep, List.map_cons, List.foldl_cons]

/-- **The counters fall short by less than the number of CPUs.**  Any number of CPUs may run in
any interleaving.  Once no call is running, a key without an entry has had no calls or has found
the map full, and a counter is at most the number of calls for its key and short of it by less
than one for each CPU. -/
theorem value_short_lt_cpus [Fintype ι] (run : List (CpuAction ι)) (k : CounterKey)
    (hidle : ∀ cpu, (run.foldl cpuStep (Cpus.start ι)).phase cpu = .idle)
    (hfits : (run.foldl cpuStep (Cpus.start ι)).calls.count k < 2 ^ 64) :
    let m := run.foldl cpuStep (Cpus.start ι)
    ((m.counters.lookup k).isSome →
      (m.value k).toNat ≤ m.calls.count k ∧
        m.calls.count k < (m.value k).toNat + Fintype.card ι) ∧
    (m.counters.lookup k = none →
      m.calls.count k = 0 ∨ countersMaxEntries ≤ m.counters.length) := by
  have hbounded : Bounded countersMaxEntries Finset.univ k
      (run.foldl cpuStep (Cpus.start ι)).racers := by
    rw [racers_run]
    exact bounded_run _ fun cpu _ => Finset.mem_univ cpu
  generalize run.foldl cpuStep (Cpus.start ι) = m at hidle hfits hbounded ⊢
  have hnone : among Finset.univ m.racers.phase (Phase.about k) = 0 := by
    simp [among, Cpus.racers, hidle, CpuPhase.toPhase, Phase.about]
  have hcalls := hbounded.calls
  have hvalue : m.value k = UInt64.ofNat (m.counted.count k) := hbounded.value
  rw [hnone, Nat.add_zero] at hcalls
  change m.calls.count k = m.counted.count k + m.lost.count k at hcalls
  refine ⟨fun hpresent => ?_, fun habsent => ?_⟩
  · have hlost : m.lost.count k + among Finset.univ m.racers.phase (Phase.inserts k) <
        Finset.univ.card := hbounded.present hpresent
    rw [hvalue, UInt64.toNat_ofNat', Nat.mod_eq_of_lt (by omega), ← Finset.card_univ]
    omega
  · have hnot : ¬ m.racers.Present k := by
      have hentries : m.racers.entries.lookup k = none := habsent
      simp [Racers.Present, hentries]
    obtain ⟨hzero, hlost⟩ := hbounded.absent hnot
    change m.counted.count k = 0 at hzero
    change m.lost.count k = 0 ∨ countersMaxEntries ≤ m.counters.length at hlost
    omega

/-- With every number of CPUs a counter can fall short by all of them but one. -/
theorem exists_short_by_cpus [Fintype ι] [Nonempty ι] (k : CounterKey) :
    ∃ run : List (CpuAction ι),
      let m := run.foldl cpuStep (Cpus.start ι)
      (∀ cpu, m.phase cpu = .idle) ∧ (m.value k).toNat = 1 ∧
        m.calls.count k = Fintype.card ι := by
  have hne : (Finset.univ : Finset ι).toList ≠ [] := by
    rw [Ne, Finset.toList_eq_nil]
    exact Finset.univ_nonempty.ne_empty
  obtain ⟨hidle, hentry, hcalls, -⟩ := foldl_raced (k := k) (Finset.nodup_toList Finset.univ) hne
    (show 0 < countersMaxEntries by decide)
  let run : List (CpuAction ι) := Finset.univ.toList.map (.call · k) ++
    (Finset.univ.toList.map .next ++ Finset.univ.toList.map .next)
  have hrun : (run.foldl cpuStep (Cpus.start ι)).racers =
      (raced Finset.univ.toList k).foldl (step countersMaxEntries) (Racers.start _ ι) := by
    rw [racers_run]
    simp [run, raced, CpuAction.toAction, Function.comp_def, Cpus.start, Cpus.racers,
      CpuPhase.toPhase, Racers.start]
  rw [← hrun] at hidle hentry hcalls
  refine ⟨run, fun cpu => ?_, ?_, ?_⟩
  · have hphase : ((run.foldl cpuStep (Cpus.start ι)).phase cpu).toPhase = .idle := hidle cpu
    cases hcpu : (run.foldl cpuStep (Cpus.start ι)).phase cpu with
    | idle => rfl
    | lookup | add | insert => simp [hcpu, CpuPhase.toPhase] at hphase
  · have hlookup : (run.foldl cpuStep (Cpus.start ι)).counters.lookup k = some 1 := hentry
    rw [Cpus.value, hlookup]
    rfl
  · rw [← Finset.card_univ, ← Finset.length_toList]
    exact hcalls

end Racers

theorem value_short_lt_cpus_raced :
    let m := racedRun.foldl cpuStep (Cpus.start (Fin 2))
    m.calls.count ⟨1, 0, 0⟩ = 2 ∧ m.calls.count ⟨1, 0, 0⟩ < (m.value ⟨1, 0, 0⟩).toNat + 2 :=
  ⟨by decide +kernel, ((value_short_lt_cpus racedRun ⟨1, 0, 0⟩ (by decide +kernel)
    (by decide +kernel)).1 (by decide +kernel)).2⟩

end FaultOracle.Ebpf
