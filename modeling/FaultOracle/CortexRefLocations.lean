import FaultOracle.CortexRefDriver

/-!
# Where the reference EDAC driver reports its errors

The injection target is two words which other writers change at any time.  A writer reads them
for its log line after it has queued its errors, and a drain reads them once more, one after
the other, when it has already emptied the counter.

`located_of_settled`: as long as the target is changed only while nothing is queued and no task
has still to read it, every error is reported and announced where it was queued.
-/

namespace FaultOracle.CortexRef

open GuardedRuns

/-- Every report is made at one location, which was selected and at which all its errors were
queued, and every log line announces the location in force when its errors were queued. -/
structure Located (d : Driver) : Prop where
  reports : ∀ r ∈ d.reports, ∀ b ∈ r.batches, b.location = ⟨r.topLayer, r.midLayer⟩
  selected : ∀ r ∈ d.reports, (⟨r.topLayer, r.midLayer⟩ : Location) ∈ d.selected
  log : ∀ l ∈ d.log, (⟨l.csrow, l.channel⟩ : Location) = l.queuedAt

/-- The task has not to read the csrow any more, or has taken no errors yet. -/
def Task.PastRow : Task → Prop
  | .xchg _ | .logChannel .. | .readChannel .. => True
  | _ => False

/-- The task has taken no errors yet, so that it has none to locate. -/
def Task.Idle : Task → Prop
  | .xchg _ => True
  | _ => False

/-- A write changes the target only while no error is pending and no task has still to read
what it changes. -/
def Settled (d : Driver) : Action → Prop
  | .injectCsrow ubuf => ∀ val, targetValue d.nrCsrows ubuf = .ok val → val ≠ d.injectCsrow →
      (∀ kind, d.pending kind = []) ∧ ∀ t ∈ d.tasks, t.PastRow
  | .injectChannel ubuf => ∀ val, targetValue d.nrChannels ubuf = .ok val →
      val ≠ d.injectChannel → (∀ kind, d.pending kind = []) ∧ ∀ t ∈ d.tasks, t.Idle
  | _ => True

/-- What a task has read agrees with the errors it is about, and what it has still to read does
so if it is read now. -/
def Task.OnTarget (d : Driver) : Task → Prop
  | .logRow _ _ queuedAt => queuedAt = d.location
  | .logChannel _ _ queuedAt csrow => queuedAt = ⟨csrow, d.injectChannel⟩
  | .xchg _ => True
  | .account _ _ batches | .readRow _ _ batches => ∀ b ∈ batches, b.location = d.location
  | .readChannel _ _ batches csrow => (∀ b ∈ batches, b.location = ⟨csrow, d.injectChannel⟩) ∧
      (⟨csrow, d.injectChannel⟩ : Location) ∈ d.selected

/-- The target is where everything pending was queued. -/
structure OnTarget (d : Driver) : Prop where
  located : Located d
  inForce : d.location ∈ d.selected
  pending : ∀ kind, ∀ b ∈ d.pending kind, b.location = d.location
  tasks : ∀ t ∈ d.tasks, t.OnTarget d

/-- What a task is about depends on the target and the locations selected only. -/
theorem Task.OnTarget.mono {d d' : Driver} {t : Task} (h : t.OnTarget d)
    (hlocation : d'.location = d.location) (hselected : ∀ l ∈ d.selected, l ∈ d'.selected) :
    t.OnTarget d' := by
  have hchannel : d'.injectChannel = d.injectChannel := congrArg Location.channel hlocation
  cases t with
  | logRow kind val queuedAt => exact h.trans hlocation.symm
  | logChannel kind val queuedAt csrow => rw [Task.OnTarget, hchannel]; exact h
  | xchg kind => trivial
  | account kind n batches => exact fun b hb => (h b hb).trans hlocation.symm
  | readRow kind n batches => exact fun b hb => (h b hb).trans hlocation.symm
  | readChannel kind n batches csrow =>
      rw [Task.OnTarget, hchannel]
      exact ⟨h.1, hselected _ h.2⟩

theorem Kind.next_onTarget {d : Driver} {kind : Kind} {t : Task} (ht : t ∈ kind.next) :
    t.OnTarget d := by
  cases kind with
  | ce => rw [List.mem_singleton.mp ht]; trivial
  | ue => cases ht

/-- What was selected stays selected. -/
theorem Located.select {d d' : Driver} (h : Located d) (hreports : d'.reports = d.reports)
    (hlog : d'.log = d.log) (hselected : ∀ l ∈ d.selected, l ∈ d'.selected) : Located d' :=
  ⟨by rw [hreports]; exact h.reports,
    by rw [hreports]; exact fun r hr => hselected _ (h.selected r hr),
    by rw [hlog]; exact h.log⟩

/-- The other tasks stay on target, and so do those which are added. -/
theorem OnTarget.tasks_append {d d' : Driver} (h : OnTarget d)
    (hlocation : d'.location = d.location) (hselected : d'.selected = d.selected)
    {new : List Task} (hnew : ∀ t ∈ new, t.OnTarget d) :
    ∀ t ∈ d.tasks ++ new, t.OnTarget d' := by
  intro t ht
  have hold : t.OnTarget d := List.forall_mem_append.mpr ⟨h.tasks, hnew⟩ t ht
  exact hold.mono hlocation (fun l hl => by rw [hselected]; exact hl)

/-- The next access of a task keeps the target where everything was queued. -/
theorem OnTarget.runTask {d : Driver} {t : Task} (h : OnTarget d) (ht : t.OnTarget d) :
    OnTarget (runTask d t) := by
  cases t with
  | logRow kind val queuedAt =>
      exact ⟨h.located.select rfl rfl (fun _ hl => hl), h.inForce, h.pending,
        h.tasks_append rfl rfl (List.forall_mem_singleton.mpr ht)⟩
  | logChannel kind val queuedAt csrow =>
      refine ⟨⟨h.located.reports, h.located.selected, ?_⟩, h.inForce, h.pending,
        fun t ht => (h.tasks t ht).mono rfl (fun _ hl => hl)⟩
      exact List.forall_mem_append.mpr ⟨h.located.log, List.forall_mem_singleton.mpr ht.symm⟩
  | xchg kind =>
      refine ⟨h.located.select rfl rfl (fun _ hl => hl), h.inForce, fun k b hb => ?_,
        h.tasks_append rfl rfl ?_⟩
      · by_cases hk : k = kind
        · subst hk
          simp [CortexRef.runTask] at hb
        · simp only [CortexRef.runTask, Function.update_of_ne hk] at hb
          exact h.pending k b hb
      · by_cases hn : 0 < d.sim kind
        · rw [if_pos hn]
          exact List.forall_mem_singleton.mpr (h.pending kind)
        · rw [if_neg hn]
          exact fun t ht => Kind.next_onTarget ht
  | account kind n batches =>
      exact ⟨h.located.select rfl rfl (fun _ hl => hl), h.inForce, h.pending,
        h.tasks_append rfl rfl (List.forall_mem_singleton.mpr ht)⟩
  | readRow kind n batches =>
      exact ⟨h.located.select rfl rfl (fun _ hl => hl), h.inForce, h.pending,
        h.tasks_append rfl rfl (List.forall_mem_singleton.mpr ⟨ht, h.inForce⟩)⟩
  | readChannel kind n batches csrow =>
      obtain ⟨hbatches, hselected⟩ := ht
      refine ⟨⟨?_, ?_, h.located.log⟩, h.inForce, h.pending,
        h.tasks_append rfl rfl fun t ht => Kind.next_onTarget ht⟩
      · exact List.forall_mem_append.mpr
          ⟨h.located.reports, List.forall_mem_singleton.mpr hbatches⟩
      · exact List.forall_mem_append.mpr
          ⟨h.located.selected, List.forall_mem_singleton.mpr hselected⟩

theorem OnTarget.queueErrors {d : Driver} (h : OnTarget d) (kind : Kind) (val : Nat) :
    OnTarget (queueErrors d kind val) := by
  refine ⟨h.located.select rfl rfl (fun _ hl => hl), h.inForce, fun k b hb => ?_,
    h.tasks_append rfl rfl (List.forall_mem_singleton.mpr rfl)⟩
  by_cases hk : k = kind
  · subst hk
    simp only [CortexRef.queueErrors, Function.update_self] at hb
    rcases List.mem_append.mp hb with hold | hnew
    · exact h.pending k b hold
    · rw [List.mem_singleton.mp hnew]; rfl
  · simp only [CortexRef.queueErrors, Function.update_of_ne hk] at hb
    exact h.pending k b hb

/-- A write which selects the target in force once more. -/
theorem OnTarget.reselect {d d' : Driver} (h : OnTarget d) (hlocation : d'.location = d.location)
    (hselected : ∀ l ∈ d.selected, l ∈ d'.selected) (hreports : d'.reports = d.reports)
    (hlog : d'.log = d.log) (hpending : d'.pending = d.pending) (htasks : d'.tasks = d.tasks) :
    OnTarget d' := by
  refine ⟨h.located.select hreports hlog hselected, ?_, ?_, ?_⟩
  · rw [hlocation]; exact hselected _ h.inForce
  · rw [hlocation, hpending]; exact h.pending
  · rw [htasks]; exact fun t ht => (h.tasks t ht).mono hlocation hselected

/-- The csrow is changed while nothing is pending and no task has to read it. -/
theorem OnTarget.setCsrow {d : Driver} (h : OnTarget d) {val : Nat}
    (hsettled : val ≠ d.injectCsrow →
      (∀ kind, d.pending kind = []) ∧ ∀ t ∈ d.tasks, t.PastRow) :
    OnTarget (setCsrow d val) := by
  have hkept : ∀ l ∈ d.selected, l ∈ (CortexRef.setCsrow d val).selected :=
    fun l hl => List.mem_cons_of_mem _ hl
  by_cases hval : val = d.injectCsrow
  · have hlocation : (CortexRef.setCsrow d val).location = d.location := by rw [hval]; rfl
    exact h.reselect hlocation hkept rfl rfl rfl rfl
  · obtain ⟨hpending, hpast⟩ := hsettled hval
    refine ⟨h.located.select rfl rfl hkept, List.mem_cons_self, fun k b hb => ?_,
      fun t ht => ?_⟩
    · have hnone : b ∈ d.pending k := hb
      rw [hpending k] at hnone
      cases hnone
    · have hold := h.tasks t ht
      have hpast' := hpast t ht
      cases t with
      | readChannel kind n batches csrow => exact ⟨hold.1, hkept _ hold.2⟩
      | logChannel kind val queuedAt csrow => exact hold
      | xchg kind => trivial
      | _ => exact absurd hpast' id

/-- The channel is changed while nothing is pending and no task has taken errors. -/
theorem OnTarget.setChannel {d : Driver} (h : OnTarget d) {val : Nat}
    (hsettled : val ≠ d.injectChannel →
      (∀ kind, d.pending kind = []) ∧ ∀ t ∈ d.tasks, t.Idle) :
    OnTarget (setChannel d val) := by
  have hkept : ∀ l ∈ d.selected, l ∈ (CortexRef.setChannel d val).selected :=
    fun l hl => List.mem_cons_of_mem _ hl
  by_cases hval : val = d.injectChannel
  · have hlocation : (CortexRef.setChannel d val).location = d.location := by rw [hval]; rfl
    exact h.reselect hlocation hkept rfl rfl rfl rfl
  · obtain ⟨hpending, hidle⟩ := hsettled hval
    refine ⟨h.located.select rfl rfl hkept, List.mem_cons_self, fun k b hb => ?_,
      fun t ht => ?_⟩
    · have hnone : b ∈ d.pending k := hb
      rw [hpending k] at hnone
      cases hnone
    · have hidle' := hidle t ht
      cases t with
      | xchg kind => trivial
      | _ => exact absurd hidle' id

theorem OnTarget.starts {d : Driver} (h : OnTarget d) :
    OnTarget { d with tasks := d.tasks ++ [.xchg .ce] } :=
  ⟨h.located.select rfl rfl (fun _ hl => hl), h.inForce, h.pending,
    h.tasks_append rfl rfl (List.forall_mem_singleton.mpr trivial)⟩

theorem OnTarget.step {d : Driver} (h : OnTarget d) {a : Action} (hsettled : Settled d a) :
    OnTarget (step d a) := by
  cases a with
  | inject kind ubuf =>
      cases hvalue : injectValue kind ubuf with
      | error e => simpa only [CortexRef.step, hvalue] using h
      | ok val => simpa only [CortexRef.step, hvalue] using h.queueErrors kind val
  | injectCsrow ubuf =>
      cases hvalue : targetValue d.nrCsrows ubuf with
      | error e => simpa only [CortexRef.step, hvalue] using h
      | ok val => simpa only [CortexRef.step, hvalue] using h.setCsrow (hsettled val hvalue)
  | injectChannel ubuf =>
      cases hvalue : targetValue d.nrChannels ubuf with
      | error e => simpa only [CortexRef.step, hvalue] using h
      | ok val => simpa only [CortexRef.step, hvalue] using h.setChannel (hsettled val hvalue)
  | setIrqMode irqMode =>
      exact h.reselect rfl (fun _ hl => hl) rfl rfl rfl rfl
  | poll =>
      by_cases hmode : d.irqMode = true
      · rw [show CortexRef.step d .poll = d from if_pos hmode]
        exact h
      · rw [show CortexRef.step d .poll = { d with tasks := d.tasks ++ [.xchg .ce] } from
          if_neg hmode]
        exact h.starts
  | interrupt => exact h.starts
  | run i =>
      cases ht : d.tasks[i]? with
      | none => simpa only [CortexRef.step, ht] using h
      | some t =>
          simp only [CortexRef.step, ht]
          have hothers : OnTarget { d with tasks := d.tasks.eraseIdx i } :=
            ⟨h.located.select rfl rfl (fun _ hl => hl), h.inForce, h.pending,
              fun t' ht' => (h.tasks t' (List.mem_of_mem_eraseIdx ht')).mono rfl
                (fun _ hl => hl)⟩
          have htask := h.tasks t (List.mem_of_getElem? ht)
          exact hothers.runTask (htask.mono rfl (fun _ hl => hl))

theorem onTarget_probed (nrCsrows nrChannels : Nat) (irqMode : Bool) :
    OnTarget (probed nrCsrows nrChannels irqMode) where
  located := ⟨fun _ h => absurd h List.not_mem_nil, fun _ h => absurd h List.not_mem_nil,
    fun _ h => absurd h List.not_mem_nil⟩
  inForce := List.mem_cons_self
  pending := fun _ _ h => absurd h List.not_mem_nil
  tasks := fun _ h => absurd h List.not_mem_nil

/-- **Locations.**  In every run of writes, drains and their accesses in any order in which the
target is changed only while no error is pending and no task has still to read it, every error
is reported, and announced in the log, where it was queued. -/
theorem located_of_settled (nrCsrows nrChannels : Nat) (irqMode : Bool) (run : List Action)
    (hrun : Meets step Settled (probed nrCsrows nrChannels irqMode) run) :
    Throughout step Located (probed nrCsrows nrChannels irqMode) run :=
  (throughout_of_meets (fun _ _ h hsettled => h.step hsettled)
    (onTarget_probed nrCsrows nrChannels irqMode) hrun).mono fun _ h => h.located

/-- An error is drained at csrow 0 before the next one is queued at csrow 1. -/
def drainedFirst : List Action :=
  [.inject .ce "1\n".toList, .run 0, .run 0, .poll, .run 0, .run 0, .run 0, .run 0, .run 0,
    .injectCsrow "1\n".toList, .inject .ue "2".toList]

theorem drainedFirst_located : Throughout step Located (probed 4 2 false) drainedFirst := by
  have hempty : ∀ kind, (List.foldl step (probed 4 2 false) (drainedFirst.take 9)).pending kind
      = [] := by
    intro kind; cases kind <;> rfl
  exact located_of_settled 4 2 false drainedFirst ⟨trivial, trivial, trivial, trivial, trivial,
    trivial, trivial, trivial, trivial,
    fun _ _ _ => ⟨hempty, fun _ h => absurd h List.not_mem_nil⟩, trivial, trivial⟩

/-- The csrow is changed after an error was queued and before the drain. -/
def retargeted : List Action :=
  [.inject .ce "1
".toList, .run 0, .run 0, .injectCsrow "1
".toList,
    .poll, .run 0, .run 0, .run 0, .run 0]

/-- The error, queued and announced at csrow 0, is reported at csrow 1. -/
theorem retargeted_misreports : ¬ Throughout step Located (probed 4 2 false) retargeted := by
  intro h
  have hend : Located (retargeted.foldl step (probed 4 2 false)) := h.at_end
  have hreport := hend.reports ⟨.ce, 1, 1, 0, [⟨1, ⟨0, 0⟩⟩]⟩ (by decide +kernel)
    ⟨1, ⟨0, 0⟩⟩ List.mem_cons_self
  revert hreport
  decide

end FaultOracle.CortexRef
