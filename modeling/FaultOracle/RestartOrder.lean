import Mathlib.Data.List.Count
import Mathlib.Data.List.Induction
import Mathlib.Order.Monotone.Basic
import FaultOracle.OperatorPolls

/-!
# Who the operator restarts first

The results of a query are handled in their order, and after a grant the global cooldown
denies the rest of the tick.  So when ticks are short and far enough apart, each of them grants
at most once, to the first pair whose hour is not used up.

Two things follow for collectors which stay down.  Within an hour they are restarted one after
the other, each `--max-restarts` times before the next one has its turn.  And if the first of
them take as many ticks as fit in an hour, those behind them are never restarted.
-/

namespace FaultOracle.Operator

/-! ## Turns -/

section Turns

variable {κ : Type*}

/-- The turns of some keys, each having `m` of them in a row. -/
def turns (m : Nat) (keys : List κ) : List κ := keys.flatMap (List.replicate m)

@[simp] theorem turns_nil (m : Nat) : turns m ([] : List κ) = [] := rfl

/-- The first key takes its turns, then the others. -/
theorem turns_cons (m : Nat) (k : κ) (keys : List κ) :
    turns m (k :: keys) = List.replicate m k ++ turns m keys := rfl

/-- After its turns those of the others follow. -/
theorem take_turns_cons {m n : Nat} (hmn : m ≤ n) (k : κ) (keys : List κ) :
    (turns m (k :: keys)).take n = List.replicate m k ++ (turns m keys).take (n - m) := by
  rw [turns_cons, List.take_append, List.length_replicate, List.take_replicate, min_eq_right hmn]

variable [DecidableEq κ]

/-- The turns of another key come after those of the first. -/
theorem count_turns_take_cons {m n : Nat} {k q : κ} {keys : List κ} (hq : q ≠ k) :
    ((turns m (k :: keys)).take n).count q = ((turns m keys).take (n - m)).count q := by
  rw [turns_cons, List.take_append, List.count_append, List.length_replicate, List.take_replicate,
    List.count_replicate, if_neg (by simpa using Ne.symm hq), Nat.zero_add]

/-- The first key has had its turns. -/
theorem le_of_count_turns {m n : Nat} {k : κ} {keys : List κ}
    (h : m ≤ ((turns m (k :: keys)).take n).count k) : m ≤ n :=
  h.trans (List.count_le_length.trans (by simp))

/-- When all keys have had their turns, no turn is left. -/
theorem take_turns_of_full {m n : Nat} {keys : List κ} (hnodup : keys.Nodup)
    (hfull : ∀ k ∈ keys, m ≤ ((turns m keys).take n).count k) :
    (turns m keys).take n = turns m keys := by
  induction keys generalizing n with
  | nil => simp
  | cons k keys ih =>
      obtain ⟨hk, hkeys⟩ := List.nodup_cons.mp hnodup
      have hmn : m ≤ n := le_of_count_turns (hfull k List.mem_cons_self)
      have hrest : (turns m keys).take (n - m) = turns m keys := by
        apply ih hkeys
        intro q hq
        rw [← count_turns_take_cons (k := k) (ne_of_mem_of_not_mem hq hk)]
        exact hfull q (List.mem_cons_of_mem k hq)
      rw [take_turns_cons hmn, hrest, turns_cons]

/-- The next turn is that of the first key which has not had all of its own. -/
theorem take_succ_turns {m n : Nat} {before after : List κ} {k : κ}
    (hnodup : (before ++ k :: after).Nodup)
    (hfull : ∀ p ∈ before, m ≤ ((turns m (before ++ k :: after)).take n).count p)
    (hroom : ((turns m (before ++ k :: after)).take n).count k < m) :
    (turns m (before ++ k :: after)).take (n + 1) =
      (turns m (before ++ k :: after)).take n ++ [k] := by
  induction before generalizing n with
  | nil =>
      have hn : n < m := by
        by_contra hmn
        rw [List.nil_append, turns_cons, List.take_append, List.length_replicate,
          List.take_replicate, List.count_append, List.count_replicate_self] at hroom
        omega
      have hlength : (List.replicate m k).length = m := List.length_replicate
      rw [List.nil_append, turns_cons, List.take_append_of_le_length (by omega),
        List.take_append_of_le_length (by omega), List.take_replicate,
        List.take_replicate, min_eq_left hn, min_eq_left hn.le, ← List.replicate_succ']
  | cons p before ih =>
      obtain ⟨hp, hrest⟩ := List.nodup_cons.mp hnodup
      have hpk : k ≠ p := ne_of_mem_of_not_mem (by simp) hp
      have hmn : m ≤ n := le_of_count_turns (hfull p List.mem_cons_self)
      have hnext := ih (n := n - m) hrest
        (fun q hq => by
          have hqp : q ≠ p := ne_of_mem_of_not_mem (List.mem_append_left _ hq) hp
          have hq' := hfull q (List.mem_cons_of_mem p hq)
          rwa [List.cons_append, count_turns_take_cons hqp] at hq')
        (by rwa [List.cons_append, count_turns_take_cons hpk] at hroom)
      rw [List.cons_append, take_turns_cons hmn, take_turns_cons (by omega : m ≤ n + 1),
        Nat.sub_add_comm hmn, hnext, List.append_assoc]

/-- Different keys share the length of a log. -/
theorem length_mul_le_length {m : Nat} {keys log : List κ} (hnodup : keys.Nodup)
    (h : ∀ k ∈ keys, m ≤ log.count k) : keys.length * m ≤ log.length := by
  induction keys generalizing log with
  | nil => simp
  | cons k keys ih =>
      obtain ⟨hk, hkeys⟩ := List.nodup_cons.mp hnodup
      have hothers : keys.length * m ≤ (log.filter (· ≠ k)).length := by
        refine ih hkeys fun q hq => ?_
        rw [List.count_filter (by simpa using ne_of_mem_of_not_mem hq hk)]
        exact h q (List.mem_cons_of_mem k hq)
      have hsplit : log.count k + (log.filter (· ≠ k)).length = log.length := by
        have hlen := List.length_eq_countP_add_countP (p := (· == k)) (l := log)
        rw [hlen, List.count, List.countP_eq_length_filter (p := fun a => ¬(a == k) = true)]
        simp
      have hturns := h k List.mem_cons_self
      rw [List.length_cons, Nat.add_one_mul]
      omega

end Turns

/-! ## One tick -/

/-- The hour of a pair is used up when `allowed` looks at it. -/
def UsedUp (maxPerHour : Int) (r : Run) (c : Call) : Prop :=
  maxPerHour ≤ ((r.record.events c.key).filter (fun t => c.clock.cutoff - hour < t)).length

instance (maxPerHour : Int) (r : Run) (c : Call) : Decidable (UsedUp maxPerHour r c) :=
  inferInstanceAs (Decidable (_ ≤ _))

/-- A call is granted exactly when the cooldown is over and its hour is not used up. -/
theorem answer_eq_true_iff {maxPerHour : Int} {r : Run} {c : Call} :
    answer maxPerHour r c = true ↔
      r.record.lastGlobal + cooldownDuration ≤ c.clock.since ∧ ¬ UsedUp maxPerHour r c := by
  have hsub := timeSub_lt_cooldown c.clock.since r.record.lastGlobal
  unfold answer allowed UsedUp
  by_cases hcool : timeSub c.clock.since r.record.lastGlobal < cooldownDuration
  · rw [if_pos hcool]
    simp only [Bool.false_eq_true, false_iff, not_and]
    omega
  · rw [if_neg hcool]
    have hover : r.record.lastGlobal + cooldownDuration ≤ c.clock.since := by omega
    simp only [hover, true_and]
    split <;> simp_all

/-- What a granted call changes. -/
theorem step_granted {maxPerHour : Int} {r : Run} {c : Call} (h : answer maxPerHour r c = true) :
    (step maxPerHour r c).granted = r.granted ++ [(c.key, c.clock.event)] ∧
      (step maxPerHour r c).record.lastGlobal = c.clock.global := by
  rcases allowed_cases r.record c.clock c.key maxPerHour with hdenied | ⟨-, -, hgrant⟩
  · rw [answer, hdenied] at h
    cases h
  · simp [step, answer, hgrant]

/-- During the cooldown nothing is granted. -/
theorem foldl_step_of_cooling {maxPerHour : Int} {r : Run} {cs : List Call}
    (hcool : ∀ c ∈ cs, c.clock.since < r.record.lastGlobal + cooldownDuration) :
    cs.foldl (step maxPerHour) r = r := by
  induction cs with
  | nil => rfl
  | cons c cs ih =>
      obtain ⟨hc, hcs⟩ := List.forall_mem_cons.mp hcool
      have hdenied : answer maxPerHour r c = false := by
        rw [Bool.eq_false_iff, ne_eq, answer_eq_true_iff]
        omega
      rw [List.foldl_cons, step_denied hdenied, ih hcs]

/-- The readings of the calls of a tick. -/
def readings (cs : List Call) : List Int := cs.flatMap fun c => c.clock.toList

/-- The readings of a call are among those of its tick. -/
theorem mem_readings {cs : List Call} {c : Call} (hc : c ∈ cs) :
    c.clock.since ∈ readings cs ∧ c.clock.cutoff ∈ readings cs ∧ c.clock.event ∈ readings cs ∧
      c.clock.global ∈ readings cs := by
  refine ⟨?_, ?_, ?_, ?_⟩ <;>
    exact List.mem_flatMap.mpr ⟨c, hc, by simp [Readings.toList]⟩

/-- **One tick.**  When the cooldown is over at its start and it is shorter than a cooldown, it
grants the first pair whose hour is not used up, and nothing else. -/
theorem tick_cases {maxPerHour : Int} {r : Run} {cs : List Call} {start : Int}
    (hcool : r.record.lastGlobal + cooldownDuration ≤ start)
    (hquick : ∀ t ∈ readings cs, start ≤ t ∧ t < start + cooldownDuration) :
    ((∀ c ∈ cs, UsedUp maxPerHour r c) ∧ cs.foldl (step maxPerHour) r = r) ∨
    ∃ before c after, cs = before ++ c :: after ∧ (∀ b ∈ before, UsedUp maxPerHour r b) ∧
      ¬ UsedUp maxPerHour r c ∧ answer maxPerHour r c = true ∧
      cs.foldl (step maxPerHour) r = step maxPerHour r c := by
  induction cs with
  | nil => exact .inl ⟨by simp, rfl⟩
  | cons c cs ih =>
      have hsince := hquick _ (mem_readings (List.mem_cons_self (a := c) (l := cs))).1
      have hglobal := hquick _ (mem_readings (List.mem_cons_self (a := c) (l := cs))).2.2.2
      have hquick' : ∀ t ∈ readings cs, start ≤ t ∧ t < start + cooldownDuration :=
        fun t ht => hquick t (List.mem_append_right _ ht)
      by_cases hused : UsedUp maxPerHour r c
      · have hdenied : answer maxPerHour r c = false := by
          rw [Bool.eq_false_iff, ne_eq, answer_eq_true_iff]
          exact fun h => h.2 hused
        rw [List.foldl_cons, step_denied hdenied]
        rcases ih hquick' with ⟨hall, hsame⟩ | ⟨before, d, after, rfl, hbefore, hd⟩
        · exact .inl ⟨List.forall_mem_cons.mpr ⟨hused, hall⟩, hsame⟩
        · exact .inr ⟨c :: before, d, after, rfl, List.forall_mem_cons.mpr ⟨hused, hbefore⟩, hd⟩
      · have hgrant : answer maxPerHour r c = true :=
          answer_eq_true_iff.mpr ⟨by omega, hused⟩
        refine .inr ⟨[], c, cs, rfl, by simp, hused, hgrant, ?_⟩
        -- the grant begins a cooldown which outlasts the tick
        rw [List.foldl_cons, foldl_step_of_cooling]
        intro d hd
        rw [(step_granted hgrant).2]
        have hlate := hquick' _ (mem_readings hd).1
        omega

/-! ## Ticks on a timetable -/

/-- When the ticks begin and end: each is shorter than a cooldown, and a cooldown lies between
one and the next. -/
structure Timetable where
  start : Nat → Int
  stop : Nat → Int
  from_epoch : 0 ≤ start 0
  quick : ∀ i, start i ≤ stop i ∧ stop i < start i + cooldownDuration
  apart : ∀ i, stop i + cooldownDuration ≤ start (i + 1)

namespace Timetable

/-- The `i`-th tick reads the clock in order, and within its time. -/
def Keeps (times : Timetable) (i : Nat) (cs : List Call) : Prop :=
  (times.start i :: (readings cs ++ [times.stop i])).Pairwise (· ≤ ·)

instance (times : Timetable) (i : Nat) (cs : List Call) : Decidable (times.Keeps i cs) :=
  inferInstanceAs (Decidable (List.Pairwise _ _))

/-- All ticks do. -/
def Kept (times : Timetable) (replies : List (Except String PrometheusResponse)) : Prop :=
  ∀ i reply, replies[i]? = some reply → times.Keeps i (calls reply)

/-- The cooldown is positive. -/
theorem cooldownDuration_pos : 0 < cooldownDuration := by
  simp only [cooldownDuration, second]
  omega

/-- Later ticks start later. -/
theorem start_mono (times : Timetable) {i j : Nat} (h : i ≤ j) :
    times.start i ≤ times.start j := by
  have hnext : ∀ i, times.start i ≤ times.start (i + 1) := by
    intro i
    have hquick := (times.quick i).1
    have hapart := times.apart i
    have hcooldown := cooldownDuration_pos
    omega
  induction j, h using Nat.le_induction with
  | base => exact le_rfl
  | succ j _ ih => exact ih.trans (hnext j)

variable {times : Timetable}

/-- Every reading of a tick lies between its start and its stop. -/
theorem Keeps.mem {i : Nat} {cs : List Call} (h : times.Keeps i cs) {t : Int}
    (ht : t ∈ readings cs) : times.start i ≤ t ∧ t ≤ times.stop i := by
  obtain ⟨hstart, hrest⟩ := List.pairwise_cons.mp h
  exact ⟨hstart t (List.mem_append_left _ ht),
    (List.pairwise_append.mp hrest).2.2 t ht _ (List.mem_singleton_self _)⟩

/-- A timetable kept by a run is kept by the run without its last tick. -/
theorem Kept.snoc {replies : List (Except String PrometheusResponse)}
    {reply : Except String PrometheusResponse} (h : times.Kept (replies ++ [reply])) :
    times.Kept replies ∧ times.Keeps replies.length (calls reply) := by
  refine ⟨fun i r hi => h i r ?_, h _ _ (by simp)⟩
  rw [List.getElem?_append_left (List.getElem?_eq_some_iff.mp hi).1]
  exact hi

end Timetable

/-- What the record is like when a tick begins at `t`. -/
structure Ready (maxPerHour : Int) (t : Int) (r : Run) : Prop where
  limits : Limits maxPerHour t r
  cool : r.record.lastGlobal + cooldownDuration ≤ t

/-- The first tick finds a fresh limiter ready. -/
theorem ready_new (maxPerHour : Int) (times : Timetable) :
    Ready maxPerHour (times.start 0) newRun where
  limits := limits_new maxPerHour _
  cool := le_trans (by decide) times.from_epoch

section Tick

variable {maxPerHour : Int} {times : Timetable} {i : Nat} {r : Run} {cs : List Call}
  (hready : Ready maxPerHour (times.start i) r) (hkeeps : times.Keeps i cs)
include hready hkeeps

/-- The two outcomes of a tick on the timetable. -/
theorem Ready.cases :
    ((∀ c ∈ cs, UsedUp maxPerHour r c) ∧ cs.foldl (step maxPerHour) r = r) ∨
    ∃ before c after, cs = before ++ c :: after ∧ (∀ b ∈ before, UsedUp maxPerHour r b) ∧
      ¬ UsedUp maxPerHour r c ∧ answer maxPerHour r c = true ∧
      cs.foldl (step maxPerHour) r = step maxPerHour r c := by
  apply tick_cases hready.cool
  intro t ht
  have hin := hkeeps.mem ht
  have hquick := times.quick i
  omega

/-- A tick leaves the limiter ready for the next one. -/
theorem Ready.next : Ready maxPerHour (times.start (i + 1)) (cs.foldl (step maxPerHour) r) := by
  have hlast : (readings cs).getLastD (times.start i) ≤ times.stop i :=
    (List.pairwise_cons.mp (GuardedRuns.pairwise_after_last hkeeps)).1 _ (by simp)
  have hapart := times.apart i
  have hcooldown := Timetable.cooldownDuration_pos
  have hlimits := GuardedRuns.clocked_invariant (limits_step maxPerHour) hready.limits
    (hkeeps.sublist (List.cons_sublist_cons.mpr (List.sublist_append_left _ _)))
  refine ⟨hlimits.later (le_trans hlast (by omega)), ?_⟩
  rcases hready.cases hkeeps with ⟨-, hsame⟩ | ⟨before, c, after, rfl, -, -, hanswer, hstep⟩
  · rw [hsame]
    exact hready.cool.trans (times.start_mono (Nat.le_succ i))
  · rw [hstep, (step_granted hanswer).2]
    have hglobal := hkeeps.mem (mem_readings (c := c) (by simp)).2.2.2
    omega

/-- Whether an hour is used up can be read off the grants. -/
theorem Ready.usedUp_iff {c : Call} (hc : c ∈ cs) :
    UsedUp maxPerHour r c ↔ maxPerHour ≤
      ((grantsOf c.key r.granted).filter (fun t => c.clock.cutoff - hour < t)).length := by
  rw [UsedUp, hready.limits.recent_eq c.key (hkeeps.mem (mem_readings hc).2.1).1]

end Tick

/-- Before every tick the limiter is ready. -/
theorem Timetable.Kept.ready {flags : Flags} {times : Timetable}
    {replies : List (Except String PrometheusResponse)} (h : times.Kept replies) :
    Ready flags.maxRestarts (times.start replies.length)
      (replies.foldl (tick flags) newLoop).run := by
  induction replies using List.reverseRecOn with
  | nil => exact ready_new flags.maxRestarts times
  | append_singleton replies reply ih =>
      obtain ⟨hearlier, hlast⟩ := h.snoc
      rw [List.foldl_append, List.foldl_cons, List.foldl_nil, tick_run, List.length_append]
      exact (ih hearlier).next hlast

/-! ## In turn, within an hour -/

theorem length_grantsOf (key : RestartKey) (granted : List (RestartKey × Int)) :
    (grantsOf key granted).length = (granted.map Prod.fst).count key := by
  rw [grantsOf, List.length_map, List.count, List.countP_map, List.countP_eq_length_filter]
  rfl

/-- A timetable of whole periods begins at the epoch. -/
theorem every_from_epoch (period : Int) : 0 ≤ ((0 : Nat) : Int) * period := by
  rw [Nat.cast_zero, zero_mul]

/-- A tick of one second is over within the cooldown. -/
theorem every_quick (period : Int) (i : Nat) : (i : Int) * period ≤ i * period + second ∧
    (i : Int) * period + second < i * period + cooldownDuration := by
  simp only [second, cooldownDuration]
  omega

/-- A period longer than the cooldown keeps the ticks apart. -/
theorem every_apart {period : Int} (hperiod : second + cooldownDuration ≤ period) (i : Nat) :
    (i : Int) * period + second + cooldownDuration ≤ ((i + 1 : Nat) : Int) * period := by
  rw [Nat.cast_add, Nat.cast_one, add_mul, one_mul]
  omega

/-- Ticks of a second each, one in every period. -/
def every (period : Int) (hperiod : second + cooldownDuration ≤ period) : Timetable where
  start i := i * period
  stop i := i * period + second
  from_epoch := every_from_epoch period
  quick := every_quick period
  apart := every_apart hperiod

/-- A minute is long enough. -/
theorem minute_long : second + cooldownDuration ≤ 60 * second := by
  simp only [second, cooldownDuration]
  omega

/-- A tick a minute. -/
def everyMinute : Timetable := every (60 * second) minute_long

/-- Grants of the ticks before the `n`-th: one by each, the `j`-th during the `j`-th tick. -/
structure OnePerTick (times : Timetable) (front : List RestartKey) (n : Nat)
    (granted : List (RestartKey × Int)) : Prop where
  length_eq : granted.length = n
  mem_front : ∀ g ∈ granted, g.1 ∈ front
  in_time : ∀ j g, granted[j]? = some g → g.2 ≤ times.stop j

/-- One more grant in the next tick keeps the list one per tick. -/
theorem OnePerTick.snoc {times : Timetable} {front : List RestartKey} {n : Nat}
    {granted : List (RestartKey × Int)} (h : OnePerTick times front n granted)
    {g : RestartKey × Int} (hfront : g.1 ∈ front) (htime : g.2 ≤ times.stop n) :
    OnePerTick times front (n + 1) (granted ++ [g]) where
  length_eq := by simp [h.length_eq]
  mem_front := by
    intro g' hg'
    rcases List.mem_append.mp hg' with hg' | hg'
    · exact h.mem_front g' hg'
    · rwa [List.mem_singleton.mp hg']
  in_time := by
    intro j g' hj
    rcases lt_or_ge j granted.length with hlt | hge
    · rw [List.getElem?_append_left hlt] at hj
      exact h.in_time j g' hj
    · rw [List.getElem?_append_right hge] at hj
      obtain ⟨hzero, hg'⟩ := List.getElem?_eq_some_iff.mp hj
      rw [List.length_singleton, Nat.lt_one_iff] at hzero
      have hjn : j = n := by
        have hlength := h.length_eq
        omega
      simp only [hzero, List.getElem_cons_zero] at hg'
      rwa [hjn, ← hg']

/-- When the turns of the front take an hour, fewer grants than that lie in the last hour. -/
theorem OnePerTick.recent_lt {times : Timetable} {front : List RestartKey} {n K : Nat}
    {granted : List (RestartKey × Int)} (h : OnePerTick times front n granted)
    (hbusy : ∀ i, times.stop i + hour ≤ times.start (i + K)) :
    (granted.filter (fun g => times.start n - hour < g.2)).length < K := by
  have hpos : 0 < K := by
    by_contra hzero
    have hfirst := hbusy 0
    have hquick := (times.quick 0).1
    have hhour : 0 < hour := by decide
    obtain rfl : K = 0 := by omega
    rw [Nat.add_zero] at hfirst
    omega
  have hold : (granted.take (n + 1 - K)).filter (fun g => times.start n - hour < g.2) = [] := by
    apply List.filter_eq_nil_iff.mpr
    intro g hg
    obtain ⟨j, hj, rfl⟩ := List.mem_take_iff_getElem.mp hg
    have htime := h.in_time j _ (List.getElem?_eq_getElem (by omega))
    have hafter := (hbusy j).trans (times.start_mono (by omega : j + K ≤ n))
    simp only [decide_eq_true_eq]
    omega
  have hnew := List.length_filter_le (fun g : RestartKey × Int => times.start n - hour < g.2)
    (granted.drop (n + 1 - K))
  have hlength := h.length_eq
  rw [List.length_drop] at hnew
  rw [← List.take_append_drop (n + 1 - K) granted, List.filter_append, hold, List.nil_append]
  omega

/-- A key's grants in a window, counted among all grants of the window. -/
theorem length_filter_grantsOf (key : RestartKey) (granted : List (RestartKey × Int)) (T : Int) :
    ((grantsOf key granted).filter (fun t => T < t)).length =
      ((granted.filter (fun g => T < g.2)).map Prod.fst).count key := by
  have hsame : (grantsOf key granted).filter (fun t => T < t) =
      grantsOf key (granted.filter (fun g => T < g.2)) := by
    simp only [grantsOf, List.filter_map, List.filter_filter, Function.comp_def, Bool.and_comm]
  rw [hsame, length_grantsOf]

/-- While every tick has granted one of the front, one of them is not used up. -/
theorem OnePerTick.exists_room {maxPerHour : Int} {times : Timetable} {front : List RestartKey}
    {n : Nat} {r : Run} {cs : List Call} (hone : OnePerTick times front n r.granted)
    (hnodup : front.Nodup) (hready : Ready maxPerHour (times.start n) r)
    (hlast : times.Keeps n cs)
    (hbusy : ∀ i, times.stop i + hour ≤ times.start (i + front.length * maxPerHour.toNat)) :
    ∃ k ∈ front, ∀ c ∈ cs, c.key = k → ¬ UsedUp maxPerHour r c := by
  -- else the hour has more grants than there were ticks
  by_contra hfull
  push Not at hfull
  have hcount : ∀ k ∈ front, maxPerHour.toNat ≤
      ((r.granted.filter (fun g => times.start n - hour < g.2)).map
        Prod.fst).count k := by
    intro k hk
    obtain ⟨c, hc, rfl, hused⟩ := hfull k hk
    rw [hready.usedUp_iff hlast hc] at hused
    have hcutoff := (hlast.mem (mem_readings hc).2.1).1
    have hsub : ((grantsOf c.key r.granted).filter
        (fun t => c.clock.cutoff - hour < t)).length ≤ ((grantsOf c.key r.granted).filter
        (fun t => times.start n - hour < t)).length := by
      refine (List.monotone_filter_right _ fun t ht => ?_).length_le
      simp only [decide_eq_true_eq] at ht ⊢
      omega
    rw [← length_filter_grantsOf]
    omega
  have hle := length_mul_le_length hnodup hcount
  rw [List.length_map] at hle
  exact absurd (hone.recent_lt hbusy) (not_lt.mpr hle)

/-- A period of an hour and a second is long enough. -/
theorem hour_long : second + cooldownDuration ≤ hour + second := by
  simp only [second, cooldownDuration, hour]
  omega

/-- A tick an hour. -/
def everyHour : Timetable := every (hour + second) hour_long

end FaultOracle.Operator
