import Mathlib.Algebra.BigOperators.Group.List.Basic
import Mathlib.Algebra.Order.Ring.Int
import Mathlib.Data.List.Basic
import Mathlib.Logic.Function.Basic
import FaultOracle.GuardedRuns

/-!
# The reference EDAC driver

`edac-reference/edac_cortex_ref.c` queues injected errors in two atomic counters.  A drain,
run by the poll or by the interrupt, takes what a counter holds and hands it to the EDAC core
together with the injection target, which is written by two other debugfs files.

Writers and drains run at the same time, so every access to shared memory is a step of its
own, and between two of them any other step may be taken.  The csrow and the channel are read
in this order where both are arguments of one call; C leaves that order to the compiler, and
the results about locations hold where no target changes between the two reads.  A write which
is refused changes nothing.  What the EDAC core is told and what the log announces is kept in
the state, next to what the accounts are compared with: the errors accepted, where they were
queued, and the locations selected so far.

`conserved_iff` is about the accounts: the errors accepted are those reported or pending, and
the statistics are those of the reports.
-/

namespace FaultOracle.CortexRef

open GuardedRuns

/-- Correctable and uncorrectable errors. -/
inductive Kind
  | ce
  | ue
deriving DecidableEq

inductive Errno
  | einval
  | erange
deriving DecidableEq

/-! ## Writes to debugfs -/

/-- `kstrtoul(buf, 10, &val)`, up to the end of the C string. -/
def kstrtoul (buf : List Char) : Except Errno Nat :=
  let s := buf.takeWhile (· ≠ '\x00')
  let s := if s.head? = some '+' then s.tail else s
  let digits := s.takeWhile Char.isDigit
  let rest := s.dropWhile Char.isDigit
  let val := digits.foldl (fun n c => 10 * n + (c.toNat - '0'.toNat)) 0
  if 2 ^ 64 ≤ val then .error .erange
  else if digits = [] then .error .einval
  else if rest = [] ∨ rest = ['\n'] then .ok val
  else .error .einval

/-- What every write does first: the number in a buffer of 32 bytes. -/
def writtenValue (ubuf : List Char) : Except Errno Nat :=
  if 32 ≤ ubuf.length then .error .einval else kstrtoul ubuf

/-- The most that one write may inject. -/
def Kind.limit : Kind → Nat
  | .ce => 1000
  | .ue => 100

/-- The number a write to `inject_ce` or `inject_ue` injects. -/
def injectValue (kind : Kind) (ubuf : List Char) : Except Errno Nat :=
  match writtenValue ubuf with
  | .error e => .error e
  | .ok val => if val = 0 ∨ kind.limit < val then .error .erange else .ok val

/-- The index a write to `inject_csrow` or `inject_channel` selects. -/
def targetValue (size : Nat) (ubuf : List Char) : Except Errno Nat :=
  match writtenValue ubuf with
  | .error e => .error e
  | .ok val => if size ≤ val then .error .erange else .ok val

example : injectValue .ce "1000\n".toList = .ok 1000 ∧
    injectValue .ue "101\n".toList = .error .erange := by decide

/-! ## The driver -/

/-- An injection target. -/
structure Location where
  csrow : Nat
  channel : Nat
deriving DecidableEq

/-- Errors queued by one write, at the location in force then. -/
structure Batch where
  count : Nat
  location : Location
deriving DecidableEq

/-- Where a writer or a drain is, by the access to shared memory it makes next; `n` is the
count which the drain has taken, `batches` the errors it is made of. -/
inductive Task
  | logRow (kind : Kind) (val : Nat) (queuedAt : Location)
  | logChannel (kind : Kind) (val : Nat) (queuedAt : Location) (csrow : Nat)
  | xchg (kind : Kind)
  | account (kind : Kind) (n : Int) (batches : List Batch)
  | readRow (kind : Kind) (n : Int) (batches : List Batch)
  | readChannel (kind : Kind) (n : Int) (batches : List Batch) (csrow : Nat)

/-- A call of `edac_mc_handle_error`, with the errors which it is about. -/
structure Report where
  kind : Kind
  errorCount : Nat
  topLayer : Nat
  midLayer : Nat
  batches : List Batch
deriving DecidableEq

/-- A line of the log, with the location in force when its errors were queued. -/
structure LogLine where
  kind : Kind
  val : Nat
  csrow : Nat
  channel : Nat
  queuedAt : Location

/-- `cortex_ref_priv`, the tasks under way, and the record of what has happened. -/
structure Driver where
  nrCsrows : Nat
  nrChannels : Nat
  irqMode : Bool
  sim : Kind → Int
  injectCsrow : Nat
  injectChannel : Nat
  total : Kind → Nat
  tasks : List Task
  reports : List Report
  log : List LogLine
  accepted : Kind → Nat
  pending : Kind → List Batch
  selected : List Location

/-- The driver after `cortex_ref_probe`. -/
def probed (nrCsrows nrChannels : Nat) (irqMode : Bool) : Driver where
  nrCsrows := nrCsrows
  nrChannels := nrChannels
  irqMode := irqMode
  sim := fun _ => 0
  injectCsrow := 0
  injectChannel := 0
  total := fun _ => 0
  tasks := []
  reports := []
  log := []
  accepted := fun _ => 0
  pending := fun _ => []
  selected := [⟨0, 0⟩]

/-- The location in force. -/
def Driver.location (d : Driver) : Location := ⟨d.injectCsrow, d.injectChannel⟩

/-- The value of a 32-bit `atomic_t`. -/
def atomicValue (x : Int) : Int := x.bmod (2 ^ 32)

/-- The value of a `u64`. -/
def u64Value (n : Nat) : Nat := n % 2 ^ 64

/-- `error_count`, a `u16`. -/
def u16Value (x : Int) : Nat := (x % 2 ^ 16).toNat

/-- `atomic_add` of a writer which has checked its value; it goes on to its log line. -/
def queueErrors (d : Driver) (kind : Kind) (val : Nat) : Driver :=
  { d with
    sim := Function.update d.sim kind (atomicValue (d.sim kind + val))
    accepted := Function.update d.accepted kind (d.accepted kind + val)
    pending := Function.update d.pending kind (d.pending kind ++ [⟨val, d.location⟩])
    tasks := d.tasks ++ [.logRow kind val d.location] }

/-- `priv->inject_csrow = (u32)val`. -/
def setCsrow (d : Driver) (val : Nat) : Driver :=
  { d with injectCsrow := val, selected := ⟨val, d.injectChannel⟩ :: d.selected }

/-- `priv->inject_channel = (u32)val`. -/
def setChannel (d : Driver) (val : Nat) : Driver :=
  { d with injectChannel := val, selected := ⟨d.injectCsrow, val⟩ :: d.selected }

/-- A drain goes on from its correctable errors to the uncorrectable ones. -/
def Kind.next : Kind → List Task
  | .ce => [.xchg .ue]
  | .ue => []

/-- The next access of a task, the other tasks being in `d`. -/
def runTask (d : Driver) : Task → Driver
  | .logRow kind val queuedAt =>
      { d with tasks := d.tasks ++ [.logChannel kind val queuedAt d.injectCsrow] }
  | .logChannel kind val queuedAt csrow =>
      { d with log := d.log ++ [⟨kind, val, csrow, d.injectChannel, queuedAt⟩] }
  | .xchg kind =>
      let n := d.sim kind
      { d with
        sim := Function.update d.sim kind 0
        pending := Function.update d.pending kind []
        tasks := d.tasks ++
          if 0 < n then [.account kind n (d.pending kind)] else kind.next }
  | .account kind n batches =>
      { d with
        total := Function.update d.total kind (u64Value (d.total kind + n.toNat))
        tasks := d.tasks ++ [.readRow kind n batches] }
  | .readRow kind n batches =>
      { d with tasks := d.tasks ++ [.readChannel kind n batches d.injectCsrow] }
  | .readChannel kind n batches csrow =>
      { d with
        reports := d.reports ++ [⟨kind, u16Value n, csrow, d.injectChannel, batches⟩]
        tasks := d.tasks ++ kind.next }

/-- A write, the start of a drain, or the next access of the `i`-th task. -/
inductive Action
  | inject (kind : Kind) (ubuf : List Char)
  | injectCsrow (ubuf : List Char)
  | injectChannel (ubuf : List Char)
  | setIrqMode (irqMode : Bool)
  | poll
  | interrupt
  | run (i : Nat)

/-- One action. -/
def step (d : Driver) : Action → Driver
  | .inject kind ubuf =>
      match injectValue kind ubuf with
      | .error _ => d
      | .ok val => queueErrors d kind val
  | .injectCsrow ubuf =>
      match targetValue d.nrCsrows ubuf with
      | .error _ => d
      | .ok val => setCsrow d val
  | .injectChannel ubuf =>
      match targetValue d.nrChannels ubuf with
      | .error _ => d
      | .ok val => setChannel d val
  | .setIrqMode irqMode => { d with irqMode := irqMode }
  | .poll => if d.irqMode then d else { d with tasks := d.tasks ++ [.xchg .ce] }
  | .interrupt => { d with tasks := d.tasks ++ [.xchg .ce] }
  | .run i =>
      match d.tasks[i]? with
      | none => d
      | some t => runTask { d with tasks := d.tasks.eraseIdx i } t

/-! ## The accounts -/

/-- The errors of a kind in the calls of `edac_mc_handle_error`. -/
def received (d : Driver) (kind : Kind) : Int :=
  (d.reports.map fun r => if r.kind = kind then (r.errorCount : Int) else 0).sum

/-- What a task has taken from a counter and not handed over. -/
def Task.taken (kind : Kind) : Task → Int
  | .account k n _ | .readRow k n _ | .readChannel k n _ _ => if k = kind then n else 0
  | _ => 0

/-- What it has added to the statistics and not handed over. -/
def Task.accounted (kind : Kind) : Task → Int
  | .readRow k n _ | .readChannel k n _ _ => if k = kind then n else 0
  | _ => 0

/-- What the drains under way have taken from a counter. -/
def inFlight (d : Driver) (kind : Kind) : Int := (d.tasks.map (Task.taken kind)).sum

/-- What the drains under way have added to the statistics. -/
def accountedInFlight (d : Driver) (kind : Kind) : Int :=
  (d.tasks.map (Task.accounted kind)).sum

/-- No error is lost: the errors accepted have been received by the EDAC core or are still
pending, in the counter or with a drain under way; and the statistics are those of what was
handed over, but for the drains under way. -/
structure Conserved (d : Driver) : Prop where
  errors : ∀ kind, received d kind + (d.sim kind + inFlight d kind) = d.accepted kind
  totals : ∀ kind, (d.total kind : Int) = received d kind + accountedInFlight d kind

/-- Between drains these are the accounts as they are read: statistics and reports agree. -/
theorem Conserved.idle {d : Driver} (h : Conserved d) (hidle : d.tasks = []) (kind : Kind) :
    received d kind + d.sim kind = d.accepted kind ∧ (d.total kind : Int) = received d kind := by
  have herrors := h.errors kind
  have htotals := h.totals kind
  simp only [inFlight, accountedInFlight, hidle, List.map_nil, List.sum_nil] at herrors htotals
  exact ⟨by omega, by omega⟩

/-- A task stays in the range of the types it uses. -/
def Task.Fits (d : Driver) : Task → Prop
  | .account kind n _ => d.total kind + n < 2 ^ 64
  | .readChannel _ n _ _ => n < 2 ^ 16
  | _ => True

/-- An action stays in the range of the types it uses. -/
def Fits (d : Driver) : Action → Prop
  | .inject kind ubuf => ∀ val, injectValue kind ubuf = .ok val → d.sim kind + val < 2 ^ 31
  | .run i => ∀ t ∈ d.tasks[i]?, t.Fits d
  | _ => True

/-! ### Sums over the tasks -/

/-- A sum over the tasks, with one of them set apart. -/
theorem sum_tasks (f : Task → Int) {tasks : List Task} {i : Nat} {t : Task}
    (ht : tasks[i]? = some t) :
    (tasks.map f).sum = f t + ((tasks.eraseIdx i).map f).sum := by
  obtain ⟨hi, rfl⟩ := List.getElem?_eq_some_iff.mp ht
  have hperm : (tasks[i] :: tasks.eraseIdx i).Perm tasks := List.getElem_cons_eraseIdx_perm hi
  have hsum := (hperm.map f).sum_eq
  rw [List.map_cons, List.sum_cons] at hsum
  exact hsum.symm

/-- Only positive counts are taken. -/
def Task.Positive : Task → Prop
  | .account _ n _ | .readRow _ n _ | .readChannel _ n _ _ => 0 < n
  | _ => True

/-- No counter is negative, and only positive counts are taken. -/
structure Sound (d : Driver) : Prop where
  sim : ∀ kind, 0 ≤ d.sim kind ∧ d.sim kind < 2 ^ 31
  tasks : ∀ t ∈ d.tasks, t.Positive

/-- The accounts of a driver which has one more task under way. -/
structure ConservedWith (d : Driver) (t : Task) : Prop where
  errors : ∀ kind,
    received d kind + (d.sim kind + (t.taken kind + inFlight d kind)) = d.accepted kind
  totals : ∀ kind,
    (d.total kind : Int) = received d kind + (t.accounted kind + accountedInFlight d kind)

/-- The balance with one task set apart. -/
theorem conserved_iff_with {d : Driver} {i : Nat} {t : Task} (ht : d.tasks[i]? = some t) :
    Conserved d ↔ ConservedWith { d with tasks := d.tasks.eraseIdx i } t := by
  have htaken : ∀ kind, inFlight d kind
      = t.taken kind + inFlight { d with tasks := d.tasks.eraseIdx i } kind :=
    fun kind => sum_tasks (Task.taken kind) ht
  have haccounted : ∀ kind, accountedInFlight d kind
      = t.accounted kind + accountedInFlight { d with tasks := d.tasks.eraseIdx i } kind :=
    fun kind => sum_tasks (Task.accounted kind) ht
  constructor
  · intro h
    exact ⟨fun kind => by rw [← htaken]; exact h.errors kind,
      fun kind => by rw [← haccounted]; exact h.totals kind⟩
  · intro h
    exact ⟨fun kind => by rw [htaken]; exact h.errors kind,
      fun kind => by rw [haccounted]; exact h.totals kind⟩

/-- An atomic counter keeps a nonnegative number exactly when it has 31 bits. -/
theorem atomicValue_eq_self_iff {x : Int} (hx : 0 ≤ x) (hx' : x < 2 ^ 32) :
    atomicValue x = x ↔ x < 2 ^ 31 := by
  have hlt : Int.bmod x (2 ^ 32) < (2 ^ 32 + 1) / 2 := Int.bmod_lt (by decide)
  constructor
  · intro h
    unfold atomicValue at h
    omega
  · intro h
    exact Int.bmod_eq_of_le (by omega) (by omega)

/-- A 16-bit field keeps a positive number exactly when it has 16 bits. -/
theorem u16Value_eq_self_iff {n : Int} (hn : 0 < n) : (u16Value n : Int) = n ↔ n < 2 ^ 16 := by
  unfold u16Value
  omega

/-- A step that leaves counters, statistics and reports alone keeps the accounts when the task
goes on with the same amounts. -/
theorem ConservedWith.goes_on {d : Driver} {t t' : Task} (h : ConservedWith d t)
    (htaken : ∀ kind, t'.taken kind = t.taken kind)
    (haccounted : ∀ kind, t'.accounted kind = t.accounted kind) :
    Conserved { d with tasks := d.tasks ++ [t'] } := by
  refine ⟨fun kind => ?_, fun kind => ?_⟩
  · have herrors := h.errors kind
    have hsame := htaken kind
    simp only [inFlight, received, List.map_append, List.sum_append, List.map_cons, List.map_nil,
      List.sum_cons, List.sum_nil] at herrors ⊢
    omega
  · have htotals := h.totals kind
    have hsame := haccounted kind
    simp only [accountedInFlight, received, List.map_append, List.sum_append, List.map_cons,
      List.map_nil, List.sum_cons, List.sum_nil] at htotals ⊢
    omega

/-- The task which follows holds nothing taken. -/
theorem sum_next_taken (kind k : Kind) : (kind.next.map (Task.taken k)).sum = 0 := by
  cases kind <;> rfl

/-- The task which follows has nothing accounted. -/
theorem sum_next_accounted (kind k : Kind) : (kind.next.map (Task.accounted k)).sum = 0 := by
  cases kind <;> rfl

/-- Taking the pending count keeps the balance. -/
theorem conserved_xchg {d : Driver} {kind : Kind} (hsim : ∀ k, 0 ≤ d.sim k)
    (h : ConservedWith d (.xchg kind)) : Conserved (runTask d (.xchg kind)) := by
  refine ⟨fun k => ?_, fun k => ?_⟩
  · have herrors := h.errors k
    simp only [Task.taken, zero_add] at herrors
    by_cases hn : 0 < d.sim kind
    · by_cases hk : kind = k
      · subst hk
        simp only [runTask, inFlight, received, hn, if_true, Function.update_self,
          List.map_append, List.sum_append, List.map_cons, List.map_nil, List.sum_cons,
          List.sum_nil, Task.taken] at herrors ⊢
        omega
      · simp only [runTask, inFlight, received, hn, hk, if_true, if_false,
          Function.update_of_ne (Ne.symm hk), List.map_append, List.sum_append, List.map_cons,
          List.map_nil, List.sum_cons, List.sum_nil, Task.taken] at herrors ⊢
        omega
    · have hzero : d.sim kind = 0 := le_antisymm (not_lt.mp hn) (hsim kind)
      have hsame : Function.update d.sim kind 0 = d.sim := by
        rw [← hzero, Function.update_eq_self]
      simp only [runTask, inFlight, received, hn, if_false, hsame, List.map_append,
        List.sum_append, sum_next_taken] at herrors ⊢
      omega
  · have htotals := h.totals k
    simp only [Task.accounted, zero_add] at htotals
    by_cases hn : 0 < d.sim kind
    · simp only [runTask, accountedInFlight, received, hn, if_true, List.map_append,
        List.sum_append, List.map_cons, List.map_nil, List.sum_cons, List.sum_nil,
        Task.accounted] at htotals ⊢
      omega
    · simp only [runTask, accountedInFlight, received, hn, if_false, List.map_append,
        List.sum_append, sum_next_accounted] at htotals ⊢
      omega

/-- Adding to the total keeps the balance exactly when it does not overflow. -/
theorem conserved_account_iff {d : Driver} {kind : Kind} {n : Int} {batches : List Batch}
    (hn : 0 < n) (h : ConservedWith d (.account kind n batches)) :
    Conserved (runTask d (.account kind n batches)) ↔ d.total kind + n < 2 ^ 64 := by
  have hcast : ((u64Value (d.total kind + n.toNat) : Nat) : Int) = d.total kind + n ↔
      d.total kind + n < 2 ^ 64 := by
    unfold u64Value
    omega
  rw [← hcast]
  have htotals := h.totals kind
  simp only [Task.accounted, zero_add] at htotals
  constructor
  · intro hnext
    have htotals' := hnext.totals kind
    simp only [runTask, accountedInFlight, received, Function.update_self, List.map_append,
      List.sum_append, List.map_cons, List.map_nil, List.sum_cons, List.sum_nil,
      Task.accounted, if_true] at htotals htotals'
    omega
  · intro hvalue
    refine ⟨fun k => ?_, fun k => ?_⟩
    · have herrors := h.errors k
      simp only [runTask, inFlight, received, List.map_append, List.sum_append, List.map_cons,
        List.map_nil, List.sum_cons, List.sum_nil, Task.taken] at herrors ⊢
      omega
    · by_cases hk : kind = k
      · subst hk
        simp only [runTask, accountedInFlight, received, Function.update_self, List.map_append,
          List.sum_append, List.map_cons, List.map_nil, List.sum_cons, List.sum_nil,
          Task.accounted, if_true] at htotals ⊢
        omega
      · have htotals' := h.totals k
        simp only [runTask, accountedInFlight, received, Function.update_of_ne (Ne.symm hk),
          List.map_append, List.sum_append, List.map_cons, List.map_nil, List.sum_cons,
          List.sum_nil, Task.accounted, hk, if_false] at htotals' ⊢
        omega

/-- Reporting keeps the balance exactly when the count fits the core's field. -/
theorem conserved_readChannel_iff {d : Driver} {kind : Kind} {n : Int} {batches : List Batch}
    {csrow : Nat} (hn : 0 < n) (h : ConservedWith d (.readChannel kind n batches csrow)) :
    Conserved (runTask d (.readChannel kind n batches csrow)) ↔ n < 2 ^ 16 := by
  rw [← u16Value_eq_self_iff hn]
  have herrors := h.errors kind
  simp only [Task.taken, if_true] at herrors
  constructor
  · intro hafter
    have herrors' := hafter.errors kind
    simp only [runTask, inFlight, received, List.map_append, List.sum_append, List.map_cons,
      List.map_nil, List.sum_cons, List.sum_nil, sum_next_taken, if_true] at herrors herrors'
    omega
  · intro hvalue
    refine ⟨fun k => ?_, fun k => ?_⟩
    · have herrors' := h.errors k
      simp only [Task.taken, runTask, inFlight, received, List.map_append, List.sum_append,
        List.map_cons, List.map_nil, List.sum_cons, List.sum_nil, sum_next_taken,
        hvalue] at herrors' ⊢
      omega
    · have htotals := h.totals k
      simp only [Task.accounted, runTask, accountedInFlight, received, List.map_append,
        List.sum_append, List.map_cons, List.map_nil, List.sum_cons, List.sum_nil,
        sum_next_accounted, hvalue] at htotals ⊢
      omega

/-- The next access of a task keeps the accounts exactly when it fits its types. -/
theorem conserved_runTask_iff {d : Driver} {t : Task} (hsim : ∀ k, 0 ≤ d.sim k)
    (ht : t.Positive) (h : ConservedWith d t) : Conserved (runTask d t) ↔ t.Fits d := by
  cases t with
  | logRow kind val queuedAt =>
      exact iff_of_true (h.goes_on (fun _ => rfl) (fun _ => rfl)) trivial
  | logChannel kind val queuedAt csrow =>
      refine iff_of_true ⟨fun k => ?_, fun k => ?_⟩ trivial
      · have herrors := h.errors k
        simp only [Task.taken, zero_add] at herrors
        exact herrors
      · have htotals := h.totals k
        simp only [Task.accounted, zero_add] at htotals
        exact htotals
  | xchg kind => exact iff_of_true (conserved_xchg hsim h) trivial
  | account kind n batches => exact conserved_account_iff ht h
  | readRow kind n batches =>
      exact iff_of_true (h.goes_on (fun _ => rfl) (fun _ => rfl)) trivial
  | readChannel kind n batches csrow => exact conserved_readChannel_iff ht h

/-- A count which is taken is positive and at most 1000. -/
theorem injectValue_pos {kind : Kind} {ubuf : List Char} {val : Nat}
    (h : injectValue kind ubuf = .ok val) : 0 < val ∧ val ≤ 1000 := by
  unfold injectValue at h
  cases hwritten : writtenValue ubuf with
  | error e => simp [hwritten] at h
  | ok v =>
      simp only [hwritten] at h
      split at h
      · cases h
      · rename_i hrange
        cases h
        cases kind <;> simp only [Kind.limit] at hrange <;> omega

/-- An accepted write keeps the accounts exactly when the counter does not wrap. -/
theorem conserved_queueErrors_iff {d : Driver} {kind : Kind} {val : Nat} (hd : Sound d)
    (h : Conserved d) (hval : val ≤ 1000) :
    Conserved (queueErrors d kind val) ↔ d.sim kind + val < 2 ^ 31 := by
  obtain ⟨hlow, hhigh⟩ := hd.sim kind
  rw [← atomicValue_eq_self_iff (by omega) (by omega)]
  have herrors := h.errors kind
  constructor
  · intro hafter
    have herrors' := hafter.errors kind
    simp only [queueErrors, inFlight, received, Function.update_self, List.map_append,
      List.sum_append, List.map_cons, List.map_nil, List.sum_cons, List.sum_nil, Task.taken,
      Nat.cast_add] at herrors herrors'
    omega
  · intro hvalue
    refine ⟨fun k => ?_, fun k => ?_⟩
    · by_cases hk : k = kind
      · subst hk
        simp only [queueErrors, inFlight, received, Function.update_self, List.map_append,
          List.sum_append, List.map_cons, List.map_nil, List.sum_cons, List.sum_nil, Task.taken,
          Nat.cast_add, hvalue] at herrors ⊢
        omega
      · have herrors' := h.errors k
        simp only [queueErrors, inFlight, received, Function.update_of_ne hk, List.map_append,
          List.sum_append, List.map_cons, List.map_nil, List.sum_cons, List.sum_nil,
          Task.taken] at herrors' ⊢
        omega
    · have htotals := h.totals k
      simp only [queueErrors, accountedInFlight, received, List.map_append, List.sum_append,
        List.map_cons, List.map_nil, List.sum_cons, List.sum_nil, Task.accounted] at htotals ⊢
      omega

/-- A drain that starts has taken nothing. -/
theorem conserved_starts {d : Driver} (h : Conserved d) :
    Conserved { d with tasks := d.tasks ++ [.xchg .ce] } := by
  refine ⟨fun k => ?_, fun k => ?_⟩
  · simpa [inFlight, received, Task.taken] using h.errors k
  · simpa [accountedInFlight, received, Task.accounted] using h.totals k

/-- A step keeps the balance exactly when what it adds fits. -/
theorem conserved_step_iff {d : Driver} (hd : Sound d) (h : Conserved d) (a : Action) :
    Conserved (step d a) ↔ Fits d a := by
  cases a with
  | inject kind ubuf =>
      cases hvalue : injectValue kind ubuf with
      | error e => simp [step, Fits, hvalue, h]
      | ok val =>
          obtain ⟨-, hlimit⟩ := injectValue_pos hvalue
          simpa [step, Fits, hvalue] using conserved_queueErrors_iff hd h hlimit
  | injectCsrow ubuf =>
      refine iff_of_true ?_ trivial
      cases hvalue : targetValue d.nrCsrows ubuf with
      | error e => simpa only [step, hvalue] using h
      | ok val =>
          simp only [step, hvalue]
          exact ⟨h.errors, h.totals⟩
  | injectChannel ubuf =>
      refine iff_of_true ?_ trivial
      cases hvalue : targetValue d.nrChannels ubuf with
      | error e => simpa only [step, hvalue] using h
      | ok val =>
          simp only [step, hvalue]
          exact ⟨h.errors, h.totals⟩
  | setIrqMode irqMode => exact iff_of_true ⟨h.errors, h.totals⟩ trivial
  | poll =>
      refine iff_of_true ?_ trivial
      by_cases hmode : d.irqMode = true
      · rw [show step d .poll = d from if_pos hmode]
        exact h
      · rw [show step d .poll = { d with tasks := d.tasks ++ [.xchg .ce] } from if_neg hmode]
        exact conserved_starts h
  | interrupt => exact iff_of_true (conserved_starts h) trivial
  | run i =>
      cases ht : d.tasks[i]? with
      | none => simp [step, Fits, ht, h]
      | some t =>
          have hwith := (conserved_iff_with ht).mp h
          have hpositive : t.Positive := hd.tasks t (List.mem_of_getElem? ht)
          have hrun := conserved_runTask_iff (d := { d with tasks := d.tasks.eraseIdx i })
            (fun k => (hd.sim k).1) hpositive hwith
          have hfits : t.Fits { d with tasks := d.tasks.eraseIdx i } ↔ t.Fits d := by
            cases t <;> rfl
          simpa [step, Fits, ht] using hrun.trans hfits

/-- A task's step keeps the counts of all tasks positive. -/
theorem runTask_positive {d : Driver} {t : Task} (hd : ∀ t ∈ d.tasks, t.Positive)
    (ht : t.Positive) : ∀ t' ∈ (runTask d t).tasks, t'.Positive := by
  have hnext : ∀ kind : Kind, ∀ t' ∈ kind.next, t'.Positive := by
    intro kind t' ht'
    cases kind with
    | ce => rw [List.mem_singleton.mp ht']; trivial
    | ue => cases ht'
  intro t' ht'
  cases t with
  | logRow kind val queuedAt =>
      rcases List.mem_append.mp ht' with h | h
      · exact hd t' h
      · rw [List.mem_singleton.mp h]; trivial
  | logChannel kind val queuedAt csrow => exact hd t' ht'
  | xchg kind =>
      rcases List.mem_append.mp ht' with h | h
      · exact hd t' h
      · split at h
        · rename_i hn
          rw [List.mem_singleton.mp h]
          exact hn
        · exact hnext kind t' h
  | account kind n batches =>
      rcases List.mem_append.mp ht' with h | h
      · exact hd t' h
      · rw [List.mem_singleton.mp h]; exact ht
  | readRow kind n batches =>
      rcases List.mem_append.mp ht' with h | h
      · exact hd t' h
      · rw [List.mem_singleton.mp h]; exact ht
  | readChannel kind n batches csrow =>
      rcases List.mem_append.mp ht' with h | h
      · exact hd t' h
      · exact hnext kind t' h

/-- A task's step keeps the pending counters in their bounds. -/
theorem runTask_sim {d : Driver} (t : Task) (h : ∀ k, 0 ≤ d.sim k ∧ d.sim k < 2 ^ 31) (k : Kind) :
    0 ≤ (runTask d t).sim k ∧ (runTask d t).sim k < 2 ^ 31 := by
  cases t with
  | xchg kind =>
      by_cases hk : k = kind
      · subst hk
        simp only [runTask, Function.update_self]
        omega
      · simpa only [runTask, Function.update_of_ne hk] using h k
  | _ => exact h k

/-- A new task keeps the driver sound. -/
theorem Sound.starts {d : Driver} (h : Sound d) :
    Sound { d with tasks := d.tasks ++ [.xchg .ce] } := by
  refine ⟨h.sim, fun t ht => ?_⟩
  rcases List.mem_append.mp ht with hold | hnew
  · exact h.tasks t hold
  · rw [List.mem_singleton.mp hnew]; trivial

/-- Queued errors keep the driver sound where they fit. -/
theorem Sound.queueErrors {d : Driver} (h : Sound d) {kind : Kind} {val : Nat}
    (hfits : d.sim kind + val < 2 ^ 31) : Sound (queueErrors d kind val) := by
  refine ⟨fun k => ?_, fun t ht => ?_⟩
  · by_cases hk : k = kind
    · subst hk
      obtain ⟨hlow, hhigh⟩ := h.sim k
      have hvalue : atomicValue (d.sim k + val) = d.sim k + val :=
        (atomicValue_eq_self_iff (by omega) (by omega)).mpr hfits
      simp only [CortexRef.queueErrors, Function.update_self, hvalue]
      omega
    · simpa only [CortexRef.queueErrors, Function.update_of_ne hk] using h.sim k
  · rcases List.mem_append.mp ht with hold | hnew
    · exact h.tasks t hold
    · rw [List.mem_singleton.mp hnew]; trivial

/-- A step which fits keeps the driver sound. -/
theorem Sound.step {d : Driver} (h : Sound d) {a : Action} (hfits : Fits d a) :
    Sound (step d a) := by
  cases a with
  | inject kind ubuf =>
      cases hvalue : injectValue kind ubuf with
      | error e => simpa only [CortexRef.step, hvalue] using h
      | ok val => simpa only [CortexRef.step, hvalue] using h.queueErrors (hfits val hvalue)
  | injectCsrow ubuf =>
      cases hvalue : targetValue d.nrCsrows ubuf with
      | error e => simpa only [CortexRef.step, hvalue] using h
      | ok val =>
          simp only [CortexRef.step, hvalue]
          exact ⟨h.sim, h.tasks⟩
  | injectChannel ubuf =>
      cases hvalue : targetValue d.nrChannels ubuf with
      | error e => simpa only [CortexRef.step, hvalue] using h
      | ok val =>
          simp only [CortexRef.step, hvalue]
          exact ⟨h.sim, h.tasks⟩
  | setIrqMode irqMode => exact ⟨h.sim, h.tasks⟩
  | poll =>
      by_cases hmode : d.irqMode = true
      · rw [show CortexRef.step d .poll = d from if_pos hmode]
        exact h
      · rw [show CortexRef.step d .poll = { d with tasks := d.tasks ++ [.xchg .ce] } from
          if_neg hmode]
        exact h.starts
  | interrupt => exact h.starts
  | run i =>
      cases ht : d.tasks[i]? with
      | none => simpa only [CortexRef.step, ht] using h
      | some t =>
          simp only [CortexRef.step, ht]
          have hothers : ∀ t' ∈ d.tasks.eraseIdx i, t'.Positive :=
            fun t' ht' => h.tasks t' (List.mem_of_mem_eraseIdx ht')
          exact ⟨runTask_sim t h.sim, runTask_positive hothers
            (h.tasks t (List.mem_of_getElem? ht))⟩

/-- A probed driver is sound. -/
theorem sound_probed (nrCsrows nrChannels : Nat) (irqMode : Bool) :
    Sound (probed nrCsrows nrChannels irqMode) :=
  ⟨fun _ => ⟨le_refl 0, show (0 : Int) < 2 ^ 31 by decide⟩, fun _ ht => by cases ht⟩

/-- A probed driver is balanced. -/
theorem conserved_probed (nrCsrows nrChannels : Nat) (irqMode : Bool) :
    Conserved (probed nrCsrows nrChannels irqMode) :=
  ⟨fun _ => rfl, fun _ => rfl⟩

/-- **Conservation.**  In every run of writes, drains and their accesses in any order, no error
is lost and the statistics are right throughout exactly when every action fits its types: no
counter reaches `2 ^ 31`, no drain hands over `2 ^ 16` errors or more of a kind, and no total
reaches `2 ^ 64`. -/
theorem conserved_iff (nrCsrows nrChannels : Nat) (irqMode : Bool) (run : List Action) :
    Throughout step Conserved (probed nrCsrows nrChannels irqMode) run ↔
      Meets step Fits (probed nrCsrows nrChannels irqMode) run :=
  throughout_iff_meets Sound
    (fun _ a hd h hafter => hd.step ((conserved_step_iff hd h a).mp hafter))
    (fun _ a hd h => conserved_step_iff hd h a)
    (sound_probed nrCsrows nrChannels irqMode) (conserved_probed nrCsrows nrChannels irqMode) run

/-- Sixty-six writes of a thousand correctable errors, and the drain by the poll. -/
def sixtySixThousand : List Action :=
  List.replicate 66 (.inject .ce "1000\n".toList) ++
    [.poll, .run 66, .run 66, .run 66, .run 66, .run 66]

/-- The core receives 464 of the 66000 errors, and nothing is pending. -/
theorem drain_truncates : ¬ Throughout step Conserved (probed 4 2 false) sixtySixThousand := by
  intro h
  have hend : Conserved (sixtySixThousand.foldl step (probed 4 2 false)) := h.at_end
  have herrors := hend.errors .ce
  revert herrors
  decide +kernel

end FaultOracle.CortexRef
