import Mathlib.Data.List.Infix
import FaultOracle.BashNumbers
import FaultOracle.CortexRefDriver
import FaultOracle.GuardedRuns
import FaultOracle.TraceParser

/-!
# Replaying parsed events

`replay/replay_kernel_state.sh` takes the events which `parse_edac_trace.py` has found and
injects them one by one, through `inject_edac_ce.sh`, `inject_edac_ue.sh` and `inject_aer.sh`.
The first two write an injection target and a count to the debugfs files of the reference
driver and wait for its poll.

All along the driver does what it likes: any number of polls and interrupts, their accesses
interleaved in any way with the writes.  All that is asked is that no error is on its way any more
when the wait for an injection is over.
-/

namespace FaultOracle.KernelReplay

open CortexRef GuardedRuns

/-! ## What the driver makes of one injection -/

/-- What the EDAC core is told by a report. -/
def told (r : Report) : Kind × Nat × Nat × Nat := (r.kind, r.errorCount, r.topLayer, r.midLayer)

/-- What the driver does of its own accord. -/
def Own : Action → Prop
  | .poll | .interrupt | .run _ => True
  | _ => False

instance : DecidablePred Own
  | .poll | .interrupt | .run _ => isTrue trivial
  | .inject .. | .injectCsrow _ | .injectChannel _ | .setIrqMode _ => isFalse id

/-- The task has no errors in its hands. -/
def emptyHanded : Task → Bool
  | .logRow .. | .logChannel .. | .xchg _ => true
  | _ => false

/-- What all of the driver keeps to itself while `val` errors of a kind go through it. -/
structure Steady (d₀ d : Driver) (kind : Kind) : Prop where
  csrow : d.injectCsrow = d₀.injectCsrow
  channel : d.injectChannel = d₀.injectChannel
  nrCsrows : d.nrCsrows = d₀.nrCsrows
  nrChannels : d.nrChannels = d₀.nrChannels
  others : ∀ k, k ≠ kind → d.sim k = 0

/-- The tasks which hold errors. -/
def laden (d : Driver) : List Task := d.tasks.filter (fun t => !emptyHanded t)

/-- No error is on its way: none is queued and none is with a task. -/
structure Quiet (d : Driver) : Prop where
  laden : laden d = []
  sim : ∀ kind, d.sim kind = 0

/-- Nothing has happened but polls which found nothing. -/
structure Rests (d d' : Driver) : Prop where
  quiet : Quiet d'
  reports : d'.reports = d.reports
  csrow : d'.injectCsrow = d.injectCsrow
  channel : d'.injectChannel = d.injectChannel
  nrCsrows : d'.nrCsrows = d.nrCsrows
  nrChannels : d'.nrChannels = d.nrChannels

/-- Driver states at rest through two stretches are at rest through both. -/
theorem Rests.trans {d d' d'' : Driver} (h : Rests d d') (h' : Rests d' d'') : Rests d d'' :=
  ⟨h'.quiet, h'.reports.trans h.reports, h'.csrow.trans h.csrow, h'.channel.trans h.channel,
    h'.nrCsrows.trans h.nrCsrows, h'.nrChannels.trans h.nrChannels⟩

/-- The task which brings `val` errors of a kind from the counter to the EDAC core. -/
def Carries (d₀ : Driver) (kind : Kind) (val : Nat) : Task → Prop
  | .account k n _ | .readRow k n _ => k = kind ∧ n = val
  | .readChannel k n _ csrow => k = kind ∧ n = val ∧ csrow = d₀.injectCsrow
  | _ => False

/-- Where the `val` errors which were queued are: in the counter, with the one task that has
taken them, or reported. -/
inductive Passing (d₀ : Driver) (kind : Kind) (val : Nat) (d : Driver) : Prop
  | queued (hsim : d.sim kind = val) (hladen : laden d = [])
      (hreports : d.reports.map told = d₀.reports.map told)
  | taken (hsim : d.sim kind = 0) (t : Task) (hladen : laden d = [t])
      (hcarries : Carries d₀ kind val t) (hreports : d.reports.map told = d₀.reports.map told)
  | reported (hsim : d.sim kind = 0) (hladen : laden d = [])
      (hreports : d.reports.map told = d₀.reports.map told ++
        [(kind, val, d₀.injectCsrow, d₀.injectChannel)])

/-- The task which follows an account is empty-handed. -/
theorem filter_next (kind : Kind) : kind.next.filter (fun t => !emptyHanded t) = [] := by
  cases kind <;> rfl

/-- The laden tasks, without the one which runs next. -/
theorem laden_eraseIdx {d : Driver} {i : Nat} {t : Task} (ht : d.tasks[i]? = some t) :
    (if emptyHanded t then laden { d with tasks := d.tasks.eraseIdx i }
      else t :: laden { d with tasks := d.tasks.eraseIdx i }).Perm (laden d) := by
  obtain ⟨hi, rfl⟩ := List.getElem?_eq_some_iff.mp ht
  have hperm := (List.getElem_cons_eraseIdx_perm hi).filter (fun t => !emptyHanded t)
  rw [List.filter_cons] at hperm
  cases htask : emptyHanded d.tasks[i] <;> simpa [laden, htask] using hperm

/-- The next access of a task which holds no errors, when there are none. -/
theorem Quiet.runTask_empty {d : Driver} (h : Quiet d) {t : Task} (ht : emptyHanded t = true) :
    Rests d (runTask d t) := by
  have hladen := h.laden
  rw [KernelReplay.laden] at hladen
  cases t with
  | logRow k v queuedAt =>
      refine ⟨⟨?_, h.sim⟩, rfl, rfl, rfl, rfl, rfl⟩
      simp only [runTask, KernelReplay.laden, List.filter_append, hladen]
      rfl
  | logChannel k v queuedAt csrow => exact ⟨⟨hladen, h.sim⟩, rfl, rfl, rfl, rfl, rfl⟩
  | account k n batches => cases ht
  | readRow k n batches => cases ht
  | readChannel k n batches csrow => cases ht
  | xchg k =>
      refine ⟨⟨?_, ?_⟩, rfl, rfl, rfl, rfl, rfl⟩
      · have hzero : ¬ 0 < d.sim k := by
          rw [h.sim k]
          omega
        simp only [runTask, KernelReplay.laden, if_neg hzero, List.filter_append, filter_next,
          hladen, List.append_nil]
      · intro kind
        by_cases hk : kind = k
        · rw [hk]
          exact Function.update_self _ _ _
        · exact (Function.update_of_ne hk _ _).trans (h.sim kind)

/-- The driver's own steps keep a quiet driver at rest. -/
theorem Quiet.step {d : Driver} (h : Quiet d) {a : Action} (ha : Own a) : Rests d (step d a) := by
  have hstarts : Rests d { d with tasks := d.tasks ++ [.xchg .ce] } :=
    ⟨⟨by simpa [KernelReplay.laden, emptyHanded] using h.laden, h.sim⟩, rfl, rfl, rfl, rfl, rfl⟩
  have hsame : Rests d d := ⟨h, rfl, rfl, rfl, rfl, rfl⟩
  cases a with
  | poll =>
      simp only [CortexRef.step]
      split
      · exact hsame
      · exact hstarts
  | interrupt => exact hstarts
  | run i =>
      simp only [CortexRef.step]
      cases ht : d.tasks[i]? with
      | none => exact hsame
      | some t =>
          have hperm := laden_eraseIdx ht
          rw [h.laden] at hperm
          cases htask : emptyHanded t with
          | false =>
              rw [if_neg (by simp [htask])] at hperm
              exact absurd hperm.length_eq (by simp)
          | true =>
              rw [if_pos htask] at hperm
              have hquiet : Quiet { d with tasks := d.tasks.eraseIdx i } :=
                ⟨List.perm_nil.mp hperm, h.sim⟩
              have hrun := hquiet.runTask_empty htask
              exact ⟨hrun.quiet, hrun.reports, hrun.csrow, hrun.channel, hrun.nrCsrows,
                hrun.nrChannels⟩
  | inject => cases ha
  | injectCsrow => cases ha
  | injectChannel => cases ha
  | setIrqMode => cases ha

/-- The polls of a quiet driver find nothing. -/
theorem Quiet.foldl {d : Driver} (h : Quiet d) {actions : List Action}
    (hown : ∀ a ∈ actions, Own a) : Rests d (actions.foldl CortexRef.step d) := by
  induction actions generalizing d with
  | nil => exact ⟨h, rfl, rfl, rfl, rfl, rfl⟩
  | cons a actions ih =>
      have hstep := h.step (hown a (by simp))
      exact hstep.trans (ih hstep.quiet fun b hb => hown b (by simp [hb]))

section Passing

variable {d₀ d : Driver} {kind : Kind} {val : Nat}

/-- Which tasks are under way matters only so far as they hold errors. -/
theorem Passing.congr {d' : Driver} (h : Passing d₀ kind val d) (hsim : d'.sim = d.sim)
    (hreports : d'.reports = d.reports) (hladen : (laden d').Perm (laden d)) :
    Passing d₀ kind val d' := by
  cases h with
  | queued hs hl hr =>
      exact .queued (by rw [hsim]; exact hs) (List.perm_nil.mp (hl ▸ hladen))
        (by rw [hreports]; exact hr)
  | taken hs t hl hc hr =>
      exact .taken (by rw [hsim]; exact hs) t (List.perm_singleton.mp (hl ▸ hladen)) hc
        (by rw [hreports]; exact hr)
  | reported hs hl hr =>
      exact .reported (by rw [hsim]; exact hs) (List.perm_nil.mp (hl ▸ hladen))
        (by rw [hreports]; exact hr)

/-- The next access of a task which holds no errors: a drain may take those of the counter. -/
theorem Passing.runTask_empty (h : Passing d₀ kind val d) (hd : Steady d₀ d kind)
    (hval : 0 < val) {t : Task} (ht : emptyHanded t = true) :
    Passing d₀ kind val (runTask d t) ∧ Steady d₀ (runTask d t) kind := by
  cases t with
  | logRow k v queuedAt =>
      exact ⟨h.congr rfl rfl (by simp [runTask, laden, emptyHanded]),
        ⟨hd.csrow, hd.channel, hd.nrCsrows, hd.nrChannels, hd.others⟩⟩
  | logChannel k v queuedAt csrow =>
      exact ⟨h.congr rfl rfl (List.Perm.refl _),
        ⟨hd.csrow, hd.channel, hd.nrCsrows, hd.nrChannels, hd.others⟩⟩
  | account k n batches => cases ht
  | readRow k n batches => cases ht
  | readChannel k n batches csrow => cases ht
  | xchg k =>
      have hothers : ∀ k', k' ≠ kind → (runTask d (.xchg k)).sim k' = 0 := by
        intro k' hk'
        by_cases hk : k' = k
        · rw [hk]
          exact Function.update_self _ _ _
        · exact (Function.update_of_ne hk _ _).trans (hd.others k' hk')
      refine ⟨?_, ⟨hd.csrow, hd.channel, hd.nrCsrows, hd.nrChannels, hothers⟩⟩
      by_cases hn : 0 < d.sim k
      · -- only the counter in question holds anything
        obtain rfl : k = kind := by
          by_contra hk
          have hzero := hd.others k hk
          omega
        cases h with
        | queued hs hl hr =>
            refine .taken (Function.update_self _ _ _) (.account k val (d.pending k)) ?_
              ⟨rfl, rfl⟩ hr
            rw [laden] at hl ⊢
            simp only [runTask, hs]
            rw [if_pos (by omega), List.filter_append, hl]
            rfl
        | taken hs => omega
        | reported hs => omega
      · have hrun : runTask d (.xchg k) =
            { d with
              sim := Function.update d.sim k 0
              pending := Function.update d.pending k []
              tasks := d.tasks ++ k.next } := by
          simp [runTask, hn]
        have hsame : Function.update d.sim k 0 kind = d.sim kind := by
          by_cases hk : kind = k
          · subst hk
            rw [Function.update_self]
            cases h with
            | queued hs => omega
            | taken hs => exact hs.symm
            | reported hs => exact hs.symm
          · exact Function.update_of_ne hk _ _
        have hladen : laden { d with
            sim := Function.update d.sim k 0
            pending := Function.update d.pending k []
            tasks := d.tasks ++ k.next } = laden d := by
          simp only [laden, List.filter_append, filter_next, List.append_nil]
        rw [hrun]
        cases h with
        | queued hs hl hr => exact .queued (hsame.trans hs) (hladen.trans hl) hr
        | taken hs t hl hc hr => exact .taken (hsame.trans hs) t (hladen.trans hl) hc hr
        | reported hs hl hr => exact .reported (hsame.trans hs) (hladen.trans hl) hr

/-- The next access of the task which holds the errors; the others hold none. -/
theorem Passing.runTask_laden (hd : Steady d₀ d kind) (hval : 0 < val) (hfits : val < 2 ^ 16)
    (hsim : d.sim kind = 0) (hladen : laden d = [])
    (hreports : d.reports.map told = d₀.reports.map told) {t : Task}
    (ht : Carries d₀ kind val t) :
    Passing d₀ kind val (runTask d t) ∧ Steady d₀ (runTask d t) kind := by
  refine ⟨?_, ?_⟩
  · cases t with
    | account k n batches =>
        obtain ⟨rfl, rfl⟩ := ht
        refine .taken hsim (.readRow k val batches) ?_ ⟨rfl, rfl⟩ hreports
        simp only [runTask, laden, List.filter_append] at hladen ⊢
        rw [hladen]
        rfl
    | readRow k n batches =>
        obtain ⟨rfl, rfl⟩ := ht
        refine .taken hsim (.readChannel k val batches d.injectCsrow) ?_ ⟨rfl, rfl, hd.csrow⟩
          hreports
        simp only [runTask, laden, List.filter_append] at hladen ⊢
        rw [hladen]
        rfl
    | readChannel k n batches csrow =>
        obtain ⟨rfl, rfl, rfl⟩ := ht
        have hu16 : u16Value val = val := by
          have hval' : (0 : Int) < val := by omega
          have h16 : (val : Int) < 2 ^ 16 := by omega
          exact_mod_cast (u16Value_eq_self_iff hval').mpr h16
        refine .reported hsim ?_ ?_
        · simp only [runTask, laden, List.filter_append, filter_next, List.append_nil] at hladen ⊢
          exact hladen
        · simp only [runTask, List.map_append, List.map_cons, List.map_nil, hreports, told, hu16,
            hd.channel]
    | logRow k v queuedAt => cases ht
    | logChannel k v queuedAt csrow => cases ht
    | xchg k => cases ht
  · cases t <;> first
      | exact ⟨hd.csrow, hd.channel, hd.nrCsrows, hd.nrChannels, hd.others⟩
      | cases ht

/-- A task which carries an error is not empty-handed. -/
theorem Carries.laden {t : Task} (h : Carries d₀ kind val t) : emptyHanded t = false := by
  cases t <;> first
    | rfl
    | cases h

/-- **One step of the driver.** -/
theorem Passing.step (h : Passing d₀ kind val d) (hd : Steady d₀ d kind) (hval : 0 < val)
    (hfits : val < 2 ^ 16) {a : Action} (ha : Own a) :
    Passing d₀ kind val (step d a) ∧ Steady d₀ (step d a) kind := by
  have hstarts : Passing d₀ kind val { d with tasks := d.tasks ++ [.xchg .ce] } ∧
      Steady d₀ { d with tasks := d.tasks ++ [.xchg .ce] } kind :=
    ⟨h.congr rfl rfl (by simp [laden, emptyHanded]),
      ⟨hd.csrow, hd.channel, hd.nrCsrows, hd.nrChannels, hd.others⟩⟩
  cases a with
  | poll =>
      simp only [CortexRef.step]
      split
      · exact ⟨h, hd⟩
      · exact hstarts
  | interrupt => exact hstarts
  | run i =>
      simp only [CortexRef.step]
      cases ht : d.tasks[i]? with
      | none => exact ⟨h, hd⟩
      | some t =>
          have hd' : Steady d₀ { d with tasks := d.tasks.eraseIdx i } kind :=
            ⟨hd.csrow, hd.channel, hd.nrCsrows, hd.nrChannels, hd.others⟩
          have hperm := laden_eraseIdx ht
          cases htask : emptyHanded t with
          | true =>
              rw [if_pos htask] at hperm
              have h' : Passing d₀ kind val { d with tasks := d.tasks.eraseIdx i } :=
                h.congr rfl rfl hperm
              exact h'.runTask_empty hd' hval htask
          | false =>
              rw [if_neg (by simp [htask])] at hperm
              cases h with
              | queued hs hl hr => rw [hl] at hperm; exact absurd hperm.length_eq (by simp)
              | reported hs hl hr => rw [hl] at hperm; exact absurd hperm.length_eq (by simp)
              | taken hs t' hl hc hr =>
                  rw [hl] at hperm
                  obtain ⟨rfl, hrest⟩ := List.cons_eq_cons.mp (List.perm_singleton.mp hperm)
                  exact Passing.runTask_laden hd' hval hfits hs hrest hr hc
  | inject => cases ha
  | injectCsrow => cases ha
  | injectChannel => cases ha
  | setIrqMode => cases ha

/-- **One injection.**  Whatever a quiet driver does between the write and the next time it is
quiet, the EDAC core is told of the errors once, all together and at the target. -/
theorem told_of_queueErrors {waits : List Action} (hquiet : Quiet d₀) (hval : 0 < val)
    (hfits : val < 2 ^ 16) (hown : ∀ a ∈ waits, Own a)
    (hrest : Quiet (waits.foldl CortexRef.step (queueErrors d₀ kind val))) :
    (waits.foldl CortexRef.step (queueErrors d₀ kind val)).reports.map told =
        d₀.reports.map told ++ [(kind, val, d₀.injectCsrow, d₀.injectChannel)] ∧
      Steady d₀ (waits.foldl CortexRef.step (queueErrors d₀ kind val)) kind := by
  have hatomic : atomicValue (d₀.sim kind + val) = val := by
    rw [hquiet.sim kind, Int.zero_add]
    exact (atomicValue_eq_self_iff (by omega) (by omega)).mpr (by omega)
  have hstart : Passing d₀ kind val (queueErrors d₀ kind val) := by
    refine .queued ?_ ?_ rfl
    · exact (Function.update_self _ _ _).trans hatomic
    · have hladen := hquiet.laden
      rw [laden] at hladen
      simp only [queueErrors, laden, List.filter_append, hladen]
      rfl
  have hsteady : Steady d₀ (queueErrors d₀ kind val) kind :=
    ⟨rfl, rfl, rfl, rfl, fun k hk => (Function.update_of_ne hk _ _).trans (hquiet.sim k)⟩
  obtain ⟨hpassing, hsteady'⟩ :
      Passing d₀ kind val (waits.foldl CortexRef.step (queueErrors d₀ kind val)) ∧
        Steady d₀ (waits.foldl CortexRef.step (queueErrors d₀ kind val)) kind :=
    List.foldlRecOn (motive := fun d => Passing d₀ kind val d ∧ Steady d₀ d kind) waits
      CortexRef.step ⟨hstart, hsteady⟩
      fun d hd a ha => hd.1.step hd.2 hval hfits (hown a ha)
  refine ⟨?_, hsteady'⟩
  cases hpassing with
  | queued hs =>
      have hzero := hrest.sim kind
      omega
  | taken hs t hl =>
      rw [hrest.laden] at hl
      cases hl
  | reported hs hl hr => exact hr

end Passing

/-! ## Numbers on the way to the driver -/

/-- What `echo` writes. -/
def line (text : String) : List Char := (text ++ "\n").toList

/-- A number is written as its digits and a newline. -/
theorem line_toString (n : Nat) : line (toString n) = Nat.toDigits 10 n ++ ['\n'] := by
  rw [line, String.toList_append, Nat.toString_eq_repr, Nat.toList_repr]
  rfl

/-- The kernel reads a written number back, unless it has 64 bits or more. -/
theorem kstrtoul_line (n : Nat) :
    kstrtoul (line (toString n)) = if 2 ^ 64 ≤ n then .error .erange else .ok n := by
  have hdigits := GoStrings.isDigit_toDigits n
  have hnul : (line (toString n)).takeWhile (· ≠ '\x00') = line (toString n) := by
    rw [line_toString, List.takeWhile_eq_self_iff]
    intro c hc
    rcases List.mem_append.mp hc with hc | hc
    · have hdigit := hdigits c hc
      rw [decide_eq_true_eq]
      rintro rfl
      cases hdigit
    · rw [List.mem_singleton.mp hc]
      rfl
  have hsign : (line (toString n)).head? ≠ some '+' := by
    rw [line_toString, List.head?_append_of_ne_nil _ (by simp)]
    intro hplus
    cases hdigits '+' (List.mem_of_mem_head? hplus)
  have htake : (line (toString n)).takeWhile Char.isDigit = Nat.toDigits 10 n := by
    rw [line_toString, List.takeWhile_append_of_pos hdigits]
    simp
  have hdrop : (line (toString n)).dropWhile Char.isDigit = ['\n'] := by
    rw [line_toString, List.dropWhile_append_of_pos hdigits]
    rfl
  have hvalue := Nat.ofDigitChars_ten_toDigits (n := n)
  rw [Nat.ofDigitChars_eq_foldl] at hvalue
  simp only [kstrtoul, hnul, if_neg hsign, htake, hdrop]
  rw [hvalue]
  simp

/-- What the driver takes from a written number is that number. -/
theorem writtenValue_line_eq {n v : Nat} (h : writtenValue (line (toString n)) = .ok v) :
    v = n := by
  rw [writtenValue, kstrtoul_line] at h
  split at h
  · cases h
  · split at h
    · cases h
    · exact (Except.ok.inj h).symm

/-- The driver takes every written number of 32 bits. -/
theorem writtenValue_line {n : Nat} (hn : n < 2 ^ 32) :
    writtenValue (line (toString n)) = .ok n := by
  have hlength : (Nat.toDigits 10 n).length ≤ 10 :=
    (Nat.length_toDigits_le_iff (by decide) (by decide)).mpr (by omega)
  rw [writtenValue, kstrtoul_line, if_neg, if_neg (by omega)]
  rw [line_toString, List.length_append, List.length_singleton]
  omega

/-! ## The injection scripts -/

/-- What a script knows of an option: whether a value follows it. -/
inductive OptionKind
  | value
  | flag
deriving DecidableEq

/-- The loop over the arguments.  An option which the script does not know, or whose value is
missing, ends it with status 1. -/
def parseArgs (known : String → Option OptionKind) : List String → Option (List (String × String))
  | [] => some []
  | option :: rest =>
      match known option with
      | none => none
      | some .flag => (parseArgs known rest).map ((option, "") :: ·)
      | some .value =>
          match rest with
          | [] => none
          | text :: rest => (parseArgs known rest).map ((option, text) :: ·)

/-- What an option is in the end; a later one replaces an earlier. -/
def valueOf (opts : List (String × String)) (option default : String) : String :=
  (opts.reverse.lookup option).getD default

/-- The options of `inject_edac_ce.sh`. -/
def ceOptions (option : String) : Option OptionKind :=
  if option ∈ ["--controller", "--csrow", "--channel", "--count", "--poll-msec", "--backend"] then
    some .value
  else if option ∈ ["--no-verify", "--verbose"] then some .flag
  else none

/-- The options of `inject_edac_ue.sh`, which has no `--no-verify`. -/
def ueOptions (option : String) : Option OptionKind :=
  if option ∈ ["--controller", "--csrow", "--channel", "--count", "--poll-msec", "--backend"] then
    some .value
  else if option ∈ ["--check-memory-failure", "--verbose"] then some .flag
  else none

/-- `[[ text -ge n ]]`, which fails where bash cannot read the number. -/
def atLeast (text : String) (n : Int) : Bool :=
  match Boot.bashInteger text.toList with
  | some v => n ≤ v
  | none => false

/-- `[[ text -lt low || text -gt high ]]`. -/
def outside (text : String) (low high : Int) : Bool :=
  match Boot.bashInteger text.toList with
  | some v => v < low || high < v
  | none => false

/-- The machine: the driver, the numbers of csrows and channels under the directory of each
controller in sysfs, and whether the debugfs files of the driver are there. -/
structure Machine where
  driver : Driver
  controllers : String → Option (Nat × Nat)
  debugfs : Bool

/-- There is a directory for the number. -/
def shows (size : Nat) (number : String) : Bool :=
  (List.range size).any fun i => number = toString i

/-- What the driver does on its own while an event is replayed: before the writes of its
script, between them, and in the wait after them. -/
structure Meanwhile where
  before : List Action
  afterCsrow : List Action
  afterChannel : List Action
  wait : List Action

/-- The three writes of a script and its wait; a write which the driver refuses ends the
script. -/
def writeTarget (d : Driver) (kind : Kind) (csrow channel count : String) (w : Meanwhile) :
    Nat × Driver :=
  match targetValue d.nrCsrows (line csrow) with
  | .error _ => (1, d)
  | .ok _ =>
      let d := w.afterCsrow.foldl step (step d (.injectCsrow (line csrow)))
      match targetValue d.nrChannels (line channel) with
      | .error _ => (1, d)
      | .ok _ =>
          let d := w.afterChannel.foldl step (step d (.injectChannel (line channel)))
          match injectValue kind (line count) with
          | .error _ => (1, d)
          | .ok _ => (0, w.wait.foldl step (step d (.inject kind (line count))))

/-- What `inject_edac_ce.sh` and `inject_edac_ue.sh` share: the checks, the baselines and the
injection. -/
def injectEdac (kind : Kind) (maxCount : Int) (readsChannel : Bool) (opts : List (String × String))
    (w : Meanwhile) (m : Machine) : Nat × Machine :=
  let controller := valueOf opts "--controller" "mc0"
  let csrow := valueOf opts "--csrow" "0"
  let channel := valueOf opts "--channel" "0"
  let count := valueOf opts "--count" "1"
  if valueOf opts "--backend" "debugfs" = "none" then (0, m)
  else
    match m.controllers controller with
    | none => (1, m)
    | some (csrows, channels) =>
        if !m.debugfs || atLeast csrow m.driver.nrCsrows || atLeast channel m.driver.nrChannels ||
            outside count 1 maxCount then (1, m)
        else if !shows csrows csrow || (readsChannel && !shows channels channel) then (1, m)
        else
          let (status, d) := writeTarget m.driver kind csrow channel count w
          (status, { m with driver := d })

/-- `inject_edac_ce.sh` up to its verification, which `--no-verify` skips. -/
def injectEdacCe (args : List String) (w : Meanwhile) (m : Machine) : Nat × Machine :=
  match parseArgs ceOptions args with
  | none => (1, m)
  | some opts => injectEdac .ce 1000 true opts w m

/-- `inject_edac_ue.sh` up to its verification. -/
def injectEdacUe (args : List String) (w : Meanwhile) (m : Machine) : Nat × Machine :=
  match parseArgs ueOptions args with
  | none => (1, m)
  | some opts => injectEdac .ue 10 false opts w m

/-! ## The replay -/

/-- The options of the replay which decide what is injected. -/
structure Options where
  dryRun : Bool
  skipTypes : String
  controllerOverride : String

/-- `SKIP_SET_STR`, and the test for a type in it. -/
def skips (o : Options) (type : String) : Bool :=
  let set := if o.skipTypes = "" then "" else "," ++ o.skipTypes ++ ","
  set ≠ "" && decide (("," ++ type ++ ",").toList <:+: set.toList)

/-- `sed 's/MC/mc/g'`. -/
def replaceMc : List Char → List Char
  | 'M' :: 'C' :: rest => 'm' :: 'c' :: replaceMc rest
  | c :: rest => c :: replaceMc rest
  | [] => []

/-- `EFFECTIVE_CTRL`. -/
def effectiveController (o : Options) (e : Trace.HardwareEvent) : String :=
  String.ofList (replaceMc
    (if o.controllerOverride ≠ "" then o.controllerOverride.toList
      else e.controller.map Char.toLower))

/-- The arguments of an injection. -/
def injectArgs (o : Options) (e : Trace.HardwareEvent) : List String :=
  ["--controller", effectiveController o e, "--csrow", toString (e.csrow.getD 0),
    "--channel", toString (e.channel.getD 0), "--count", toString e.count, "--no-verify"]

/-- An event, with what the driver does in its turn and the status with which `inject_aer.sh`
would end. -/
structure Turn where
  event : Trace.HardwareEvent
  meanwhile : Meanwhile
  aerStatus : Nat

/-- The machine and the counters of the summary. -/
structure Replay where
  machine : Machine
  injected : Nat
  skipped : Nat
  errors : Nat

def Replay.start (m : Machine) : Replay := ⟨m, 0, 0, 0⟩

/-- The end of an injection. -/
def Replay.ended (r : Replay) (result : Nat × Machine) : Replay :=
  if result.1 ≠ 0 then { r with machine := result.2, errors := r.errors + 1 }
  else { r with machine := result.2, injected := r.injected + 1 }

/-- The machine when the turn of an event comes to its injection. -/
def Turn.begun (t : Turn) (r : Replay) : Machine :=
  { r.machine with driver := t.meanwhile.before.foldl step r.machine.driver }

/-- The body of the loop over the events. -/
def replayEvent (o : Options) (r : Replay) (t : Turn) : Replay :=
  if skips o t.event.eventType.text then
    { r with machine := t.begun r, skipped := r.skipped + 1 }
  else if o.dryRun then { r with machine := t.begun r, injected := r.injected + 1 }
  else
    match t.event.eventType with
    | .ce => r.ended (injectEdacCe (injectArgs o t.event) t.meanwhile (t.begun r))
    | .ue => r.ended (injectEdacUe (injectArgs o t.event) t.meanwhile (t.begun r))
    | .aerCe | .aerUe => r.ended (if t.aerStatus = 2 then 0 else t.aerStatus, t.begun r)
    | .mce => { r with machine := t.begun r, skipped := r.skipped + 1 }

/-- The exit status of the replay. -/
def Replay.status (r : Replay) : Nat := if 0 < r.errors then 1 else 0

/-- A correctable error which the machine can take: its location is one of the controller and
of the driver, and its count is one that may be injected. -/
def InRange (o : Options) (m : Machine) (e : Trace.HardwareEvent) : Prop :=
  m.debugfs = true ∧ (∃ csrows channels,
      m.controllers (effectiveController o e) = some (csrows, channels) ∧
        e.csrow.getD 0 < csrows ∧ e.channel.getD 0 < channels) ∧
    e.csrow.getD 0 < m.driver.nrCsrows ∧ e.channel.getD 0 < m.driver.nrChannels ∧
    1 ≤ e.count ∧ e.count ≤ 1000

instance (o : Options) (m : Machine) (e : Trace.HardwareEvent) : Decidable (InRange o m e) :=
  match h : m.controllers (effectiveController o e) with
  | none => isFalse (by simp [InRange, h])
  | some (csrows, channels) =>
      decidable_of_iff (m.debugfs = true ∧
          (e.csrow.getD 0 < csrows ∧ e.channel.getD 0 < channels) ∧
        e.csrow.getD 0 < m.driver.nrCsrows ∧ e.channel.getD 0 < m.driver.nrChannels ∧
        1 ≤ e.count ∧ e.count ≤ 1000) (by simp [InRange, h])

/-- The machine is set up as before: the same controllers and the same sizes. -/
structure SameSetup (m m' : Machine) : Prop where
  controllers : m'.controllers = m.controllers
  debugfs : m'.debugfs = m.debugfs
  nrCsrows : m'.driver.nrCsrows = m.driver.nrCsrows
  nrChannels : m'.driver.nrChannels = m.driver.nrChannels

/-- The same setup through two stretches is the same through both. -/
theorem SameSetup.trans {m m' m'' : Machine} (h : SameSetup m m') (h' : SameSetup m' m'') :
    SameSetup m m'' :=
  ⟨h'.controllers.trans h.controllers, h'.debugfs.trans h.debugfs, h'.nrCsrows.trans h.nrCsrows,
    h'.nrChannels.trans h.nrChannels⟩

/-- Being in range depends on the setup only. -/
theorem inRange_congr {o : Options} {m m' : Machine} (h : SameSetup m m')
    (e : Trace.HardwareEvent) : InRange o m' e ↔ InRange o m e := by
  simp only [InRange, h.controllers, h.debugfs, h.nrCsrows, h.nrChannels]

/-- An index is shown exactly when it is below the size. -/
theorem shows_toString {size n : Nat} : shows size (toString n) = true ↔ n < size := by
  simp only [shows, List.any_eq_true, List.mem_range, decide_eq_true_eq]
  constructor
  · rintro ⟨i, hi, heq⟩
    exact Boot.eq_of_toString heq ▸ hi
  · exact fun h => ⟨n, h, rfl⟩

/-- The shell's comparison of a number with the size. -/
theorem atLeast_toString {n size : Nat} (hn : n < 2 ^ 63) :
    atLeast (toString n) size = true ↔ size ≤ n := by
  rw [atLeast, Boot.bashInteger_toString hn]
  simp

/-- The shell's check that a count is between 1 and 1000. -/
theorem outside_toString {n : Nat} (hn : n < 2 ^ 63) :
    outside (toString n) 1 1000 = true ↔ n < 1 ∨ 1000 < n := by
  rw [outside, Boot.bashInteger_toString hn]
  simp only [Bool.or_eq_true, decide_eq_true_eq]
  omega

/-- A target which is taken is the written one, below the size. -/
theorem targetValue_line {size n v : Nat} (h : targetValue size (line (toString n)) = .ok v) :
    v = n ∧ n < size := by
  unfold targetValue at h
  split at h
  · cases h
  · next val heq =>
      obtain rfl := writtenValue_line_eq heq
      split at h
      · cases h
      · exact ⟨(Except.ok.inj h).symm, by omega⟩

/-- A target below the size is taken. -/
theorem targetValue_line_of_lt {size n : Nat} (hn : n < size) (hsize : size ≤ 2 ^ 32) :
    targetValue size (line (toString n)) = .ok n := by
  rw [targetValue, writtenValue_line (by omega)]
  exact if_neg (by omega)

/-- A count which is taken is the written one, positive and within the limit. -/
theorem injectValue_line {kind : Kind} {n v : Nat}
    (h : injectValue kind (line (toString n)) = .ok v) : v = n ∧ n ≠ 0 ∧ n ≤ kind.limit := by
  unfold injectValue at h
  split at h
  · cases h
  · next val heq =>
      obtain rfl := writtenValue_line_eq heq
      split at h
      · cases h
      · exact ⟨(Except.ok.inj h).symm, by omega, by omega⟩

/-- A count from 1 to 1000 is taken. -/
theorem injectValue_line_of_le {n : Nat} (hn : 1 ≤ n) (hn' : n ≤ 1000) :
    injectValue .ce (line (toString n)) = .ok n := by
  rw [injectValue, writtenValue_line (by omega)]
  exact if_neg (by simp only [Kind.limit]; omega)

/-- The target has been written into a quiet driver. -/
structure Aimed (d d' : Driver) (csrow channel : Nat) : Prop where
  quiet : Quiet d'
  reports : d'.reports = d.reports
  csrow : d'.injectCsrow = csrow
  channel : d'.injectChannel = channel
  nrCsrows : d'.nrCsrows = d.nrCsrows
  nrChannels : d'.nrChannels = d.nrChannels

/-- What the driver does in a turn, it does of its own accord. -/
def Meanwhile.Own (w : Meanwhile) : Prop :=
  ∀ a ∈ w.before ++ w.afterCsrow ++ w.afterChannel ++ w.wait, KernelReplay.Own a

instance : DecidablePred Meanwhile.Own :=
  fun w => inferInstanceAs (Decidable (∀ a ∈ w.before ++ w.afterCsrow ++ w.afterChannel ++ w.wait,
    KernelReplay.Own a))

/-- The writes and the wait of an injection: all three are taken, or nothing is queued. -/
theorem writeTarget_cases {d : Driver} (hd : Quiet d) (csrow channel count : Nat)
    {w : Meanwhile} (hw : w.Own) :
    (csrow < d.nrCsrows ∧ channel < d.nrChannels ∧ 1 ≤ count ∧ count ≤ 1000 ∧
      ∃ d', Aimed d d' csrow channel ∧
        writeTarget d .ce (toString csrow) (toString channel) (toString count) w =
          (0, w.wait.foldl step (queueErrors d' .ce count))) ∨
    ∃ d', Quiet d' ∧ d'.reports = d.reports ∧ d'.nrCsrows = d.nrCsrows ∧
      d'.nrChannels = d.nrChannels ∧
      writeTarget d .ce (toString csrow) (toString channel) (toString count) w = (1, d') := by
  unfold writeTarget
  cases hcsrow : targetValue d.nrCsrows (line (toString csrow)) with
  | error e => exact .inr ⟨d, hd, rfl, rfl, rfl, rfl⟩
  | ok v =>
      obtain ⟨rfl, hlt⟩ := targetValue_line hcsrow
      have hstep : step d (.injectCsrow (line (toString v))) = setCsrow d v := by
        simp only [step, hcsrow]
      have hquiet : Quiet (setCsrow d v) := ⟨hd.laden, hd.sim⟩
      have h₁ : Rests _ (w.afterCsrow.foldl step _) :=
        hquiet.foldl fun a ha => hw a (by simp [ha])
      simp only [hstep]
      cases hchannel : targetValue (w.afterCsrow.foldl step (setCsrow d v)).nrChannels
          (line (toString channel)) with
      | error e =>
          exact .inr ⟨w.afterCsrow.foldl step (setCsrow d v), h₁.quiet, h₁.reports,
            h₁.nrCsrows, h₁.nrChannels, rfl⟩
      | ok v' =>
          obtain ⟨rfl, hlt'⟩ := targetValue_line hchannel
          have hstep' : step (w.afterCsrow.foldl step (setCsrow d v))
              (.injectChannel (line (toString v'))) =
                setChannel (w.afterCsrow.foldl step (setCsrow d v)) v' := by
            simp only [step, hchannel]
          have hquiet' : Quiet (setChannel (w.afterCsrow.foldl step (setCsrow d v)) v') :=
            ⟨h₁.quiet.laden, h₁.quiet.sim⟩
          have h₂ : Rests _ (w.afterChannel.foldl step _) :=
            hquiet'.foldl fun a ha => hw a (by simp [ha])
          simp only [hstep']
          cases hcount : injectValue .ce (line (toString count)) with
          | error e =>
              exact .inr ⟨_, h₂.quiet, h₂.reports.trans h₁.reports,
                h₂.nrCsrows.trans h₁.nrCsrows, h₂.nrChannels.trans h₁.nrChannels, rfl⟩
          | ok n =>
              obtain ⟨rfl, hne, hle⟩ := injectValue_line hcount
              refine .inl ⟨hlt, lt_of_lt_of_eq hlt' h₁.nrChannels, by omega, hle, _,
                ⟨h₂.quiet, h₂.reports.trans h₁.reports, h₂.csrow.trans h₁.csrow, h₂.channel,
                  h₂.nrCsrows.trans h₁.nrCsrows, h₂.nrChannels.trans h₁.nrChannels⟩, ?_⟩
              simp only [step, hcount]

/-- Writes in range are taken. -/
theorem writeTarget_of_inRange {d : Driver} {csrow channel count : Nat} (hd : Quiet d)
    {w : Meanwhile} (hw : w.Own) (hcsrow : csrow < d.nrCsrows) (hchannel : channel < d.nrChannels)
    (hsize : d.nrCsrows ≤ 2 ^ 32) (hsize' : d.nrChannels ≤ 2 ^ 32) (hcount : 1 ≤ count)
    (hcount' : count ≤ 1000) :
    (writeTarget d .ce (toString csrow) (toString channel) (toString count) w).1 = 0 := by
  have hstep : step d (.injectCsrow (line (toString csrow))) = setCsrow d csrow := by
    simp only [step, targetValue_line_of_lt hcsrow hsize]
  have hquiet : Quiet (setCsrow d csrow) := ⟨hd.laden, hd.sim⟩
  have h₁ : Rests _ (w.afterCsrow.foldl step _) :=
    hquiet.foldl fun a ha => hw a (by simp [ha])
  have hchannel' : targetValue (w.afterCsrow.foldl step (setCsrow d csrow)).nrChannels
      (line (toString channel)) = .ok channel := by
    rw [h₁.nrChannels]
    exact targetValue_line_of_lt hchannel hsize'
  simp only [writeTarget, targetValue_line_of_lt hcsrow hsize, hstep, hchannel',
    injectValue_line_of_le hcount hcount']

/-- What the script reads from the options of a correctable error. -/
theorem parseArgs_ce (controller csrow channel count : String) :
    parseArgs ceOptions ["--controller", controller, "--csrow", csrow, "--channel", channel,
      "--count", count, "--no-verify"] =
      some [("--controller", controller), ("--csrow", csrow), ("--channel", channel),
        ("--count", count), ("--no-verify", "")] := by
  have hvalues : ceOptions "--controller" = some .value ∧ ceOptions "--csrow" = some .value ∧
      ceOptions "--channel" = some .value ∧ ceOptions "--count" = some .value ∧
      ceOptions "--no-verify" = some .flag := by
    decide +kernel
  obtain ⟨h₁, h₂, h₃, h₄, h₅⟩ := hvalues
  simp only [parseArgs, h₁, h₂, h₃, h₄, h₅, Option.map_some]

/-- `inject_edac_ue.sh` does not know the option `--no-verify`. -/
theorem parseArgs_ue (controller csrow channel count : String) :
    parseArgs ueOptions ["--controller", controller, "--csrow", csrow, "--channel", channel,
      "--count", count, "--no-verify"] = none := by
  have hvalues : ueOptions "--controller" = some .value ∧ ueOptions "--csrow" = some .value ∧
      ueOptions "--channel" = some .value ∧ ueOptions "--count" = some .value ∧
      ueOptions "--no-verify" = none := by
    decide +kernel
  obtain ⟨h₁, h₂, h₃, h₄, h₅⟩ := hvalues
  simp only [parseArgs, h₁, h₂, h₃, h₄, h₅, Option.map_none]

/-- What the options of a replayed injection are in the end. -/
theorem valueOf_injectArgs (controller csrow channel count : String) :
    let opts := [("--controller", controller), ("--csrow", csrow), ("--channel", channel),
      ("--count", count), ("--no-verify", "")]
    valueOf opts "--controller" "mc0" = controller ∧ valueOf opts "--csrow" "0" = csrow ∧
      valueOf opts "--channel" "0" = channel ∧ valueOf opts "--count" "1" = count ∧
      valueOf opts "--backend" "debugfs" = "debugfs" := by
  simp [valueOf, List.lookup_cons]

/-- A correctable error in range is queued at its location, and waited for. -/
theorem injectEdacCe_of_inRange {o : Options} {e : Trace.HardwareEvent} {m : Machine}
    {w : Meanwhile} (hm : Quiet m.driver) (hw : w.Own) (hsize : m.driver.nrCsrows ≤ 2 ^ 32)
    (hsize' : m.driver.nrChannels ≤ 2 ^ 32) (h : InRange o m e) :
    ∃ d', Aimed m.driver d' (e.csrow.getD 0) (e.channel.getD 0) ∧
      injectEdacCe (injectArgs o e) w m =
        (0, { m with driver := w.wait.foldl step (queueErrors d' .ce e.count) }) := by
  obtain ⟨hdebugfs, ⟨csrows, channels, hcontroller, hshown, hshown'⟩, hcsrow, hchannel, hcount,
    hcount'⟩ := h
  obtain ⟨hv₁, hv₂, hv₃, hv₄, hv₅⟩ := valueOf_injectArgs (effectiveController o e)
    (toString (e.csrow.getD 0)) (toString (e.channel.getD 0)) (toString e.count)
  have hcsrow63 : ¬ atLeast (toString (e.csrow.getD 0)) m.driver.nrCsrows = true := by
    rw [atLeast_toString (by omega)]
    omega
  have hchannel63 : ¬ atLeast (toString (e.channel.getD 0)) m.driver.nrChannels = true := by
    rw [atLeast_toString (by omega)]
    omega
  have houtside : ¬ outside (toString e.count) 1 1000 = true := by
    rw [outside_toString (by omega)]
    omega
  have hstatus := writeTarget_of_inRange hm hw hcsrow hchannel hsize hsize' hcount hcount'
  obtain ⟨-, -, -, -, d', haimed, hwrite⟩ | ⟨d', -, -, -, -, heq⟩ :=
    writeTarget_cases hm (e.csrow.getD 0) (e.channel.getD 0) e.count hw
  · refine ⟨d', haimed, ?_⟩
    simp only [injectEdacCe, injectArgs, parseArgs_ce, injectEdac, hv₁, hv₂, hv₃, hv₄, hv₅,
      hcontroller, hdebugfs, hcsrow63, hchannel63, houtside, shows_toString.mpr hshown,
      shows_toString.mpr hshown', hwrite]
    simp
  · rw [heq] at hstatus
    cases hstatus

/-- Any other correctable error fails, and nothing is queued for it. -/
theorem injectEdacCe_of_not_inRange {o : Options} {e : Trace.HardwareEvent} {m : Machine}
    {w : Meanwhile} (hm : Quiet m.driver) (hw : w.Own) (h : ¬ InRange o m e) :
    ∃ m', injectEdacCe (injectArgs o e) w m = (1, m') ∧ SameSetup m m' ∧ Quiet m'.driver ∧
      m'.driver.reports = m.driver.reports := by
  obtain ⟨hv₁, hv₂, hv₃, hv₄, hv₅⟩ := valueOf_injectArgs (effectiveController o e)
    (toString (e.csrow.getD 0)) (toString (e.channel.getD 0)) (toString e.count)
  have hrefused : ∃ m', ((1, m) : Nat × Machine) = (1, m') ∧ SameSetup m m' ∧
      Quiet m'.driver ∧ m'.driver.reports = m.driver.reports :=
    ⟨m, rfl, ⟨rfl, rfl, rfl, rfl⟩, hm, rfl⟩
  simp only [injectEdacCe, injectArgs, parseArgs_ce, injectEdac, hv₁, hv₂, hv₃, hv₄, hv₅]
  rw [if_neg (by decide)]
  cases hcontroller : m.controllers (effectiveController o e) with
  | none => exact hrefused
  | some sizes =>
      obtain ⟨csrows, channels⟩ := sizes
      simp only
      split
      · exact hrefused
      · next hchecks =>
          split
          · exact hrefused
          · next hshows =>
              obtain ⟨hcsrow, hchannel, hcount, hcount', -⟩ | ⟨d', hquiet, hreports, hcsrows,
                hchannels, heq⟩ :=
                writeTarget_cases hm (e.csrow.getD 0) (e.channel.getD 0) e.count hw
              · -- with all the checks passed and the writes taken, the error was in range
                simp only [Bool.true_and, Bool.or_eq_true, Bool.not_eq_true', not_or,
                  Bool.not_eq_false, shows_toString] at hshows hchecks
                exact absurd ⟨hchecks.1.1.1, ⟨csrows, channels, hcontroller, hshows.1, hshows.2⟩,
                  hcsrow, hchannel, hcount, hcount'⟩ h
              · rw [heq]
                exact ⟨{ m with driver := d' }, rfl, ⟨rfl, rfl, hcsrows, hchannels⟩, hquiet,
                  hreports⟩

/-- An uncorrectable error fails: the option `--no-verify` is refused before anything is done. -/
theorem injectEdacUe_injectArgs (o : Options) (e : Trace.HardwareEvent) (w : Meanwhile)
    (m : Machine) : injectEdacUe (injectArgs o e) w m = (1, m) := by
  simp only [injectEdacUe, injectArgs, parseArgs_ue]

/-! ## A whole replay -/

/-- What the EDAC core is to hear of an event. -/
def replayed (o : Options) (m : Machine) (e : Trace.HardwareEvent) :
    Option (Kind × Nat × Nat × Nat) :=
  if e.eventType = .ce ∧ skips o "CE" = false ∧ InRange o m e then
    some (.ce, e.count, e.csrow.getD 0, e.channel.getD 0)
  else none

/-- The events which are not for injection. -/
def passedOver (o : Options) (e : Trace.HardwareEvent) : Bool :=
  skips o e.eventType.text || e.eventType = .mce

/-- The events whose injection fails: correctable errors out of range, all uncorrectable errors,
and PCIe errors for which `inject_aer.sh` fails otherwise than for want of a device. -/
def fails (o : Options) (m : Machine) (t : Turn) : Bool :=
  !passedOver o t.event &&
    match t.event.eventType with
    | .ce => !decide (InRange o m t.event)
    | .ue => true
    | .aerCe | .aerUe => t.aerStatus ≠ 0 && t.aerStatus ≠ 2
    | .mce => false

/-- The driver acts of its own accord in the turn, and no error is on its way at the end. -/
def Settles (o : Options) (r : Replay) (t : Turn) : Prop :=
  t.meanwhile.Own ∧ Quiet (replayEvent o r t).machine.driver

/-- The replay has come this far, from the machine `m`, with what has been reported. -/
structure Reached (m : Machine) (heard : List (Kind × Nat × Nat × Nat)) (r : Replay) : Prop where
  quiet : Quiet r.machine.driver
  setup : SameSetup m r.machine
  reports : r.machine.driver.reports.map told = m.driver.reports.map told ++ heard

/-- What an event adds to the counters of the summary. -/
def counted (o : Options) (m : Machine) (t : Turn) (r : Replay) : Nat × Nat × Nat :=
  if passedOver o t.event then (r.injected, r.skipped + 1, r.errors)
  else if fails o m t then (r.injected, r.skipped, r.errors + 1)
  else (r.injected + 1, r.skipped, r.errors)

/-- How a replay goes on after an AER event, by the status of the tool. -/
theorem ended_aer (r : Replay) (status : Nat) (m : Machine) :
    r.ended (if status = 2 then 0 else status, m) =
      if status ≠ 0 ∧ status ≠ 2 then { r with machine := m, errors := r.errors + 1 }
      else { r with machine := m, injected := r.injected + 1 } := by
  by_cases h₂ : status = 2
  · simp [Replay.ended, h₂]
  · by_cases h₀ : status = 0 <;> simp [Replay.ended, h₂, h₀]

/-- **One event of the replay.** -/
theorem Reached.after_event {o : Options} {m : Machine} {heard : List (Kind × Nat × Nat × Nat)}
    {r : Replay} {t : Turn} (h : Reached m heard r) (hdry : o.dryRun = false)
    (hsize : m.driver.nrCsrows ≤ 2 ^ 32) (hsize' : m.driver.nrChannels ≤ 2 ^ 32)
    (ht : Settles o r t) :
    Reached m (heard ++ (replayed o m t.event).toList) (replayEvent o r t) ∧
      ((replayEvent o r t).injected, (replayEvent o r t).skipped, (replayEvent o r t).errors) =
        counted o m t r := by
  obtain ⟨hown, hend⟩ := ht
  have hbefore : Rests r.machine.driver (t.meanwhile.before.foldl step r.machine.driver) :=
    h.quiet.foldl fun a ha => hown a (by simp [ha])
  have hquiet : Quiet (t.begun r).driver := hbefore.quiet
  have hsetup : SameSetup m (t.begun r) :=
    h.setup.trans ⟨rfl, rfl, hbefore.nrCsrows, hbefore.nrChannels⟩
  have hreports : (t.begun r).driver.reports.map told = m.driver.reports.map told ++ heard :=
    (congrArg (List.map told) hbefore.reports).trans h.reports
  -- a turn in which nothing is queued
  have hnone : ∀ r' : Replay, Quiet r'.machine.driver → SameSetup (t.begun r) r'.machine →
      r'.machine.driver.reports = (t.begun r).driver.reports → replayed o m t.event = none →
      Reached m (heard ++ (replayed o m t.event).toList) r' := by
    intro r' hquiet' hsetup' hreports' hreplayed
    rw [hreplayed]
    refine ⟨hquiet', hsetup.trans hsetup', ?_⟩
    rw [Option.toList_none, List.append_nil, ← hreports]
    exact congrArg (List.map told) hreports'
  have hsame : SameSetup (t.begun r) (t.begun r) := ⟨rfl, rfl, rfl, rfl⟩
  rw [replayEvent] at hend ⊢
  cases hskip : skips o t.event.eventType.text with
  | true =>
      rw [if_pos rfl]
      refine ⟨hnone _ hquiet hsame rfl ?_, ?_⟩
      · rw [replayed, if_neg]
        rintro ⟨htype, hskip', -⟩
        rw [htype] at hskip
        cases hskip'.symm.trans hskip
      · simp [counted, passedOver, hskip]
  | false =>
      rw [if_neg (by simp), if_neg (by simp [hdry])]
      rw [hskip, if_neg (by simp), if_neg (by simp [hdry])] at hend
      cases htype : t.event.eventType with
      | mce =>
          refine ⟨hnone _ hquiet hsame rfl (if_neg (by simp [htype])), ?_⟩
          simp [counted, passedOver, htype]
      | ue =>
          simp only [injectEdacUe_injectArgs]
          refine ⟨hnone _ hquiet hsame rfl (if_neg (by simp [htype])), ?_⟩
          simp [counted, passedOver, fails, htype, htype ▸ hskip, Replay.ended]
      | aerCe =>
          have hreplayed : replayed o m t.event = none := if_neg (by simp [htype])
          simp only [ended_aer, counted, passedOver, fails, htype, htype ▸ hskip]
          split
          · next hstatus => exact ⟨hnone _ hquiet hsame rfl hreplayed, by simp [hstatus]⟩
          · next hstatus => exact ⟨hnone _ hquiet hsame rfl hreplayed, by simp [hstatus]⟩
      | aerUe =>
          have hreplayed : replayed o m t.event = none := if_neg (by simp [htype])
          simp only [ended_aer, counted, passedOver, fails, htype, htype ▸ hskip]
          split
          · next hstatus => exact ⟨hnone _ hquiet hsame rfl hreplayed, by simp [hstatus]⟩
          · next hstatus => exact ⟨hnone _ hquiet hsame rfl hreplayed, by simp [hstatus]⟩
      | ce =>
          rw [htype] at hend hskip
          simp only at hend ⊢
          by_cases hrange : InRange o (t.begun r) t.event
          · obtain ⟨d', haimed, heq⟩ := injectEdacCe_of_inRange hquiet hown
              (hsetup.nrCsrows.trans_le hsize) (hsetup.nrChannels.trans_le hsize') hrange
            rw [heq] at hend ⊢
            have hwait : ∀ a ∈ t.meanwhile.wait, Own a := fun a ha => hown a (by simp [ha])
            have hcount := hrange.2.2.2.2
            have hreplayed : replayed o m t.event =
                some (.ce, t.event.count, t.event.csrow.getD 0, t.event.channel.getD 0) :=
              if_pos ⟨htype, hskip, (inRange_congr hsetup _).mp hrange⟩
            obtain ⟨htold, hsteady⟩ := told_of_queueErrors haimed.quiet (by omega) (by omega)
              hwait hend
            refine ⟨⟨hend, hsetup.trans ⟨rfl, rfl, hsteady.nrCsrows.trans haimed.nrCsrows,
              hsteady.nrChannels.trans haimed.nrChannels⟩, ?_⟩, ?_⟩
            · rw [hreplayed, Option.toList_some, ← List.append_assoc, ← hreports,
                ← haimed.reports, ← haimed.csrow, ← haimed.channel]
              exact htold
            · simp [counted, passedOver, fails, htype, hskip, Replay.ended,
                (inRange_congr hsetup _).mp hrange]
          · obtain ⟨m', heq, hsetup', hquiet', hreports'⟩ :=
              injectEdacCe_of_not_inRange hquiet hown hrange
            have hrange' : ¬ InRange o m t.event := fun h' =>
              hrange ((inRange_congr hsetup _).mpr h')
            rw [heq]
            refine ⟨hnone _ hquiet' hsetup' hreports' (if_neg fun h' => hrange' h'.2.2), ?_⟩
            simp [counted, passedOver, fails, htype, hskip, Replay.ended, hrange']

/-- **Any number of events.** -/
theorem Reached.foldl {o : Options} {m : Machine} {heard : List (Kind × Nat × Nat × Nat)}
    {r : Replay} {turns : List Turn} (h : Reached m heard r) (hdry : o.dryRun = false)
    (hsize : m.driver.nrCsrows ≤ 2 ^ 32) (hsize' : m.driver.nrChannels ≤ 2 ^ 32)
    (hturns : Meets (replayEvent o) (Settles o) r turns) :
    let r' := turns.foldl (replayEvent o) r
    Reached m (heard ++ turns.filterMap (fun t => replayed o m t.event)) r' ∧
      r'.skipped = r.skipped + turns.countP (fun t => passedOver o t.event) ∧
      r'.errors = r.errors + turns.countP (fails o m) ∧
      r'.injected + r'.skipped + r'.errors =
        r.injected + r.skipped + r.errors + turns.length := by
  induction turns generalizing r heard with
  | nil => exact ⟨by simpa using h, rfl, rfl, rfl⟩
  | cons t turns ih =>
      obtain ⟨hreached, hcounted⟩ := h.after_event hdry hsize hsize' hturns.1
      obtain ⟨hend, hskipped, herrors, hall⟩ := ih hreached hturns.2
      have hheard : heard ++ (t :: turns).filterMap (fun t => replayed o m t.event) =
          heard ++ (replayed o m t.event).toList ++
            turns.filterMap (fun t => replayed o m t.event) := by
        cases hreplayed : replayed o m t.event <;> simp [hreplayed]
      simp only [List.foldl_cons, List.countP_cons, List.length_cons]
      rw [hheard, hall, hskipped, herrors]
      refine ⟨hend, ?_⟩
      unfold counted at hcounted
      split at hcounted
      · next hover =>
          simp only [Prod.mk.injEq] at hcounted
          have hfails : fails o m t = false := by simp [fails, hover]
          rw [if_pos hover, hfails, if_neg (by simp)]
          omega
      · next hover =>
          rw [if_neg hover]
          split at hcounted
          · next hfails =>
              simp only [Prod.mk.injEq] at hcounted
              rw [if_pos hfails]
              omega
          · next hfails =>
              simp only [Prod.mk.injEq] at hcounted
              rw [if_neg hfails]
              omega

/-- **A replay reports the correctable errors of its log, in order, each at its location.**  For
a log of any length and a driver which polls as it likes, the EDAC core hears of the correctable
errors in range and of nothing else, and the summary counts every event once: the uncorrectable
ones among the failed. -/
theorem replay_reports {o : Options} {m : Machine} {turns : List Turn} (hdry : o.dryRun = false)
    (hsize : m.driver.nrCsrows ≤ 2 ^ 32) (hsize' : m.driver.nrChannels ≤ 2 ^ 32)
    (hquiet : Quiet m.driver) (hturns : Meets (replayEvent o) (Settles o) (Replay.start m) turns) :
    let r := turns.foldl (replayEvent o) (Replay.start m)
    r.machine.driver.reports.map told =
        m.driver.reports.map told ++ turns.filterMap (fun t => replayed o m t.event) ∧
      r.skipped = turns.countP (fun t => passedOver o t.event) ∧
      r.errors = turns.countP (fails o m) ∧
      r.injected + r.skipped + r.errors = turns.length ∧
      (r.status = 0 ↔ ∀ t ∈ turns, fails o m t = false) := by
  have hstart : Reached m [] (Replay.start m) :=
    ⟨hquiet, ⟨rfl, rfl, rfl, rfl⟩, (List.append_nil _).symm⟩
  obtain ⟨hreached, hskipped, herrors, hall⟩ := hstart.foldl hdry hsize hsize' hturns
  simp only [Replay.start, Nat.zero_add] at hskipped herrors hall
  refine ⟨hreached.reports, hskipped, herrors, hall, ?_⟩
  have hnone : turns.countP (fails o m) = 0 ↔ ∀ t ∈ turns, fails o m t = false := by
    simp [List.countP_eq_zero]
  rw [← hnone, ← herrors, Replay.status, Replay.start]
  split <;> omega

/-- An error as the parser finds it. -/
def errorAt (type : Trace.EventType) (csrow channel count : Nat) : Trace.HardwareEvent :=
  ⟨0, [], 0, none, type, "edac", "MC0".toList, some csrow, some channel, count, none, none, none,
    none, none, none, []⟩

/-- One controller with two csrows of two channels. -/
def oneController : Machine :=
  ⟨probed 2 2 false, fun controller => if controller = "mc0" then some (2, 2) else none, true⟩

/-- A poll which comes between the writes, and one which drains the counter after them. -/
def twoPolls : Meanwhile :=
  ⟨[], [.poll], [.run 0],
    [.run 1, .run 0, .run 0, .poll, .run 0, .run 0, .run 0, .run 0, .run 0]⟩

def threeErrors : List Turn :=
  [⟨errorAt .ce 1 0 3, twoPolls, 0⟩, ⟨errorAt .ue 0 0 1, ⟨[], [], [], []⟩, 0⟩,
    ⟨errorAt .ce 5 0 1, ⟨[], [], [], []⟩, 0⟩]

/-- Three errors of which two cannot be injected. -/
theorem replay_reports_three :
    let r := threeErrors.foldl (replayEvent ⟨false, "", ""⟩) (Replay.start oneController)
    r.machine.driver.reports.map told = [(.ce, 3, 1, 0)] ∧ r.errors = 2 := by
  have hsettles : Meets (replayEvent ⟨false, "", ""⟩) (Settles ⟨false, "", ""⟩)
      (Replay.start oneController) threeErrors := by
    refine ⟨⟨by decide, ⟨rfl, fun kind => ?_⟩⟩, ⟨by decide, ⟨rfl, fun kind => ?_⟩⟩,
      ⟨by decide, ⟨rfl, fun kind => ?_⟩⟩, trivial⟩ <;> cases kind <;> rfl
  have h := replay_reports (o := ⟨false, "", ""⟩) rfl (by decide) (by decide)
    ⟨rfl, fun _ => rfl⟩ hsettles
  exact ⟨h.1.trans rfl, h.2.2.1.trans rfl⟩

end FaultOracle.KernelReplay
