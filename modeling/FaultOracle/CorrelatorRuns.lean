import Mathlib.Data.List.Induction
import Mathlib.Data.List.Nodup
import FaultOracle.EventCorrelator
import FaultOracle.GuardedRuns

/-!
# Bursts in the main loop of the event correlator

`main` of `correlation/event_correlator.py` reads one line after the other, and announces the
correlations it detects whose key it has not seen.  It forgets the seen keys when there are more
than a hundred of them, and at no other time, however long ago a key was seen.

A key correlates anew when the events behind its earlier correlations have all left the window.
`announcesBursts_iff`: every such burst is announced, and announced once, exactly when the keys
are forgotten between two correlations of a key just if the second is a new burst.  With keys
few enough never to be forgotten, that is when no key has a second burst
(`announcesBursts_iff_of_kept`).
-/

namespace FaultOracle.Correlator

open GuardedRuns

/-- A line of stdin, by what the loop makes of it: nothing, no JSON, an object without
`event_type`, or an event. -/
inductive Line
  | blank
  | malformed
  | untyped
  | event (e : Event)
deriving DecidableEq, Repr

/-- One turn of the loop: the line, and the clock in `add` and in `count_by_type`. -/
structure Turn where
  line : Line
  addedAt : ℚ
  detectedAt : ℚ
deriving DecidableEq, Repr

/-- `(corr["type"], corr.get("event_type", ""))`. -/
abbrev Key := CorrelationType × String

def Correlation.key (c : Correlation) : Key := (c.type, c.eventType.getD "")

/-- The variables of `main`; `seen` has the seen keys in the order in which they came. -/
structure MainLoop where
  buf : EventBuffer
  seen : List Key
deriving DecidableEq, Repr

/-- `if key not in seen_correlations`: the seen keys, and the correlations announced. -/
def announce (s : List Key × List Correlation) (c : Correlation) : List Key × List Correlation :=
  if c.key ∈ s.1 then s else (s.1 ++ [c.key], s.2 ++ [c])

/-- The loop over the correlations of a turn. -/
def announceAll (seen : List Key) (cs : List Correlation) : List Key × List Correlation :=
  cs.foldl announce (seen, [])

/-- `if len(seen_correlations) > 100: seen_correlations.clear()`. -/
def forget (seen : List Key) : List Key := if seen.length > 100 then [] else seen

/-- The buffer after the line, and the correlations detected. -/
def MainLoop.detect (s : MainLoop) (t : Turn) : EventBuffer × List Correlation :=
  match t.line with
  | .event e => detectCorrelations t.detectedAt (s.buf.add t.addedAt e)
  | _ => (s.buf, [])

/-- One turn of the loop; only a line with an event gets as far as the seen keys. -/
def step (s : MainLoop) (t : Turn) : MainLoop :=
  match t.line with
  | .event _ =>
      { buf := (s.detect t).1, seen := forget (announceAll s.seen (s.detect t).2).1 }
  | _ => s

def start (window : ℚ) : MainLoop := ⟨.new window, []⟩

/-! ## One turn -/

section Turns

variable {seen : List Key} {cs : List Correlation} {s : MainLoop} {t : Turn} {k : Key}

/-- The last correlation is announced after the others. -/
theorem announceAll_concat (c : Correlation) :
    announceAll seen (cs ++ [c]) = announce (announceAll seen cs) c := by
  rw [announceAll, List.foldl_concat]
  rfl

/-- The keys which have been announced. -/
theorem mem_announceAll_seen :
    k ∈ (announceAll seen cs).1 ↔ k ∈ seen ∨ k ∈ cs.map Correlation.key := by
  induction cs using List.reverseRecOn with
  | nil => simp [announceAll]
  | append_singleton cs c ih =>
      rw [announceAll_concat, announce, List.map_append, List.mem_append, ← or_assoc, ← ih,
        List.map_singleton, List.mem_singleton]
      by_cases h : c.key ∈ (announceAll seen cs).1
      · rw [if_pos h]
        refine ⟨Or.inl, ?_⟩
        intro hk
        rcases hk with hk | rfl
        · exact hk
        · exact h
      · rw [if_neg h, List.mem_append, List.mem_singleton]

/-- The keys announced are those of the correlations which are not seen. -/
theorem mem_announceAll :
    k ∈ (announceAll seen cs).2.map Correlation.key ↔
      k ∈ cs.map Correlation.key ∧ k ∉ seen := by
  induction cs using List.reverseRecOn with
  | nil => simp [announceAll]
  | append_singleton cs c ih =>
      rw [announceAll_concat, announce, List.map_append, List.mem_append, or_and_right, ← ih,
        List.map_singleton, List.mem_singleton]
      by_cases h : c.key ∈ (announceAll seen cs).1
      · rw [if_pos h]
        refine ⟨Or.inl, ?_⟩
        intro hk
        rcases hk with hk | ⟨rfl, hunseen⟩
        · exact hk
        · exact ih.mpr ⟨(mem_announceAll_seen.mp h).resolve_left hunseen, hunseen⟩
      · have hunseen : c.key ∉ seen := fun hmem => h (mem_announceAll_seen.mpr (Or.inl hmem))
        rw [if_neg h, List.map_append, List.mem_append, List.map_singleton, List.mem_singleton]
        refine or_congr_right ⟨?_, And.left⟩
        intro hk
        exact ⟨hk, hk ▸ hunseen⟩

/-- No turn announces a key twice. -/
theorem nodup_announceAll : ((announceAll seen cs).2.map Correlation.key).Nodup := by
  induction cs using List.reverseRecOn with
  | nil => exact List.nodup_nil
  | append_singleton cs c ih =>
      rw [announceAll_concat, announce]
      by_cases h : c.key ∈ (announceAll seen cs).1
      · rw [if_pos h]
        exact ih
      · rw [if_neg h, List.map_append, List.map_singleton]
        refine List.nodup_append.mpr ⟨ih, List.nodup_singleton _, ?_⟩
        intro other hmem key hkey heq
        rw [heq, List.mem_singleton.mp hkey] at hmem
        have hkey := (mem_announceAll.mp hmem).1
        exact h (mem_announceAll_seen.mpr (Or.inr hkey))

end Turns

/-! ## Bursts -/

section Bursts

variable (window : ℚ) (before : List Turn) (t : Turn) (k : Key)

/-- The state of the loop after some turns. -/
def after : MainLoop := before.foldl step (start window)

/-- The key is among the correlations which a turn detects. -/
def Correlates : Prop := k ∈ ((after window before).detect t).2.map Correlation.key

/-- The correlations which a turn announces. -/
def announced : List Correlation :=
  (announceAll (after window before).seen ((after window before).detect t).2).2

/-- The turn forgets the seen keys. -/
def Forgets : Prop :=
  100 < (announceAll (after window before).seen ((after window before).detect t).2).1.length ∧
    ∃ e, t.line = .event e

/-- The types of the events behind the correlations of a key. -/
def Key.types : Key → List String
  | (.memoryMultiSource, _) => ["edac_ce", "mce"]
  | (.pcieMemoryCascade, _) => ["pcie_aer_fatal", "edac_ue"]
  | (.eventStorm, etype) => [etype]

/-- The events behind the correlation of a key at a turn. -/
def behind : List Event :=
  ((after window before).detect t).1.events.filter fun e => e.eventType ∈ k.types

/-- The readings of the clock in a turn. -/
def Turn.readings (t : Turn) : List ℚ :=
  match t.line with
  | .event _ => [t.addedAt, t.detectedAt]
  | _ => []

/-- The event has left the window at one of the turns. -/
def Left (e : Event) (turns : List Turn) : Prop :=
  ∃ now ∈ turns.flatMap Turn.readings, e.time < now - window

/-- Some event behind an earlier correlation of the key is still in the window at the turn. -/
def Lasts : Prop :=
  ∃ m ∈ moments before, Correlates window m.1 m.2.1 k ∧
    ∃ e ∈ behind window m.1 m.2.1 k, ¬ Left window e (m.2.2 ++ [t])

/-- The keys are forgotten at one of the turns `later`. -/
def ForgetsIn (later : List Turn) : Prop :=
  ∃ n ∈ moments later, Forgets window (before ++ n.1) n.2.1

/-- The keys have not been forgotten since an earlier correlation of the key. -/
def Remembered : Prop :=
  ∃ m ∈ moments before, Correlates window m.1 m.2.1 k ∧
    ¬ ForgetsIn window m.1 (m.2.1 :: m.2.2)

instance : Decidable (Correlates window before t k) := inferInstanceAs (Decidable (_ ∈ _))

instance (e : Event) (turns : List Turn) : Decidable (Left window e turns) :=
  inferInstanceAs (Decidable (∃ now ∈ _, _))

instance : Decidable (Lasts window before t k) := inferInstanceAs (Decidable (∃ m ∈ _, _ ∧ _))

/-- Every new burst is announced, and once: a turn announces a key if it correlates and no
burst of it lasts. -/
def AnnouncesBursts (run : List Turn) : Prop :=
  ∀ m ∈ moments run, ((announced window m.1 m.2.1).map Correlation.key).Nodup ∧
    ∀ k, k ∈ (announced window m.1 m.2.1).map Correlation.key ↔
      Correlates window m.1 m.2.1 k ∧ ¬ Lasts window m.1 m.2.1 k

/-- Whenever a key correlates, it has been forgotten since it last did just if that was an
earlier burst. -/
def ForgetsBetweenBursts (run : List Turn) : Prop :=
  ∀ m ∈ moments run, ∀ k, Correlates window m.1 m.2.1 k →
    (Remembered window m.1 k ↔ Lasts window m.1 m.2.1 k)

end Bursts

section Runs

variable {window : ℚ} {before run : List Turn} {t : Turn} {k : Key}

/-- The state after one more turn. -/
theorem after_concat : after window (before ++ [t]) = step (after window before) t :=
  List.foldl_concat ..

/-- The seen keys after one more turn. -/
theorem mem_seen_concat :
    k ∈ (after window (before ++ [t])).seen ↔ ¬ Forgets window before t ∧
      (k ∈ (after window before).seen ∨ Correlates window before t k) := by
  rw [after_concat, Forgets, Correlates, ← mem_announceAll_seen]
  cases hline : t.line with
  | event e =>
      simp only [step, hline, forget, Line.event.injEq, exists_eq', and_true, gt_iff_lt]
      by_cases h : 100 <
          (announceAll (after window before).seen ((after window before).detect t).2).1.length
      · simp [h]
      · rw [if_neg h]
        exact (and_iff_right h).symm
  | _ => simp [step, MainLoop.detect, hline, announceAll]

/-- The keys are forgotten in the earlier turns or in the last one. -/
theorem forgetsIn_concat {later : List Turn} :
    ForgetsIn window before (later ++ [t]) ↔
      ForgetsIn window before later ∨ Forgets window (before ++ later) t := by
  constructor
  · intro ⟨n, hn, h⟩
    rcases mem_moments_concat.mp hn with ⟨n, hn', rfl⟩ | rfl
    · exact Or.inl ⟨n, hn', h⟩
    · exact Or.inr h
  · intro h
    rcases h with ⟨n, hn, h⟩ | h
    · exact ⟨_, mem_moments_concat.mpr (Or.inl ⟨n, hn, rfl⟩), h⟩
    · exact ⟨_, mem_moments_concat.mpr (Or.inr rfl), h⟩

/-- A key is remembered after a turn which does not forget and saw it, or had it before. -/
theorem remembered_concat :
    Remembered window (before ++ [t]) k ↔ ¬ Forgets window before t ∧
      (Remembered window before k ∨ Correlates window before t k) := by
  constructor
  · intro ⟨m, hm, hk, hkept⟩
    rcases mem_moments_concat.mp hm with ⟨n, hn, rfl⟩ | rfl
    · have hkept : ¬ ForgetsIn window n.1 ((n.2.1 :: n.2.2) ++ [t]) := hkept
      rw [forgetsIn_concat, not_or, ← mem_moments.mp hn] at hkept
      exact ⟨hkept.2, Or.inl ⟨n, hn, hk, hkept.1⟩⟩
    · have hkept : ¬ ForgetsIn window before ([] ++ [t]) := hkept
      rw [forgetsIn_concat, not_or, List.append_nil] at hkept
      exact ⟨hkept.2, Or.inr hk⟩
  · intro ⟨hkept, h⟩
    rcases h with ⟨n, hn, hk, hearlier⟩ | hk
    · refine ⟨_, mem_moments_concat.mpr (Or.inl ⟨n, hn, rfl⟩), hk, ?_⟩
      show ¬ ForgetsIn window n.1 ((n.2.1 :: n.2.2) ++ [t])
      rw [forgetsIn_concat, not_or, ← mem_moments.mp hn]
      exact ⟨hearlier, hkept⟩
    · refine ⟨_, mem_moments_concat.mpr (Or.inr rfl), hk, ?_⟩
      show ¬ ForgetsIn window before ([] ++ [t])
      rw [forgetsIn_concat, not_or, List.append_nil]
      exact ⟨fun ⟨n, hn, _⟩ => List.not_mem_nil hn, hkept⟩

/-- **The seen keys** are those which have correlated and have not been forgotten since. -/
theorem mem_seen_iff : k ∈ (after window run).seen ↔ Remembered window run k := by
  induction run using List.reverseRecOn with
  | nil => simp [after, start, Remembered, moments]
  | append_singleton run t ih => rw [mem_seen_concat, remembered_concat, ih]

/-- A turn announces what it correlates and does not remember. -/
theorem mem_announced_iff :
    k ∈ (announced window before t).map Correlation.key ↔
      Correlates window before t k ∧ ¬ Remembered window before k := by
  rw [announced, mem_announceAll, mem_seen_iff, Correlates]

/-- Whether a key is remembered may be told in other words. -/
theorem announcesBursts_iff_of {Known : List Turn × Turn × List Turn → Key → Prop}
    (hknown : ∀ m ∈ moments run, ∀ k, Known m k ↔ Remembered window m.1 k) :
    AnnouncesBursts window run ↔ ∀ m ∈ moments run, ∀ k, Correlates window m.1 m.2.1 k →
      (Known m k ↔ Lasts window m.1 m.2.1 k) := by
  constructor
  · intro h m hm k hk
    have hiff := (h m hm).2 k
    rw [mem_announced_iff, and_congr_right_iff] at hiff
    rw [hknown m hm]
    exact not_iff_not.mp (hiff hk)
  · intro h m hm
    refine ⟨nodup_announceAll, fun k => ?_⟩
    rw [mem_announced_iff, and_congr_right_iff]
    intro hk
    rw [← hknown m hm]
    exact not_iff_not.mpr (h m hm k hk)

/-- **Every burst once.**  In a run of any length, with any window and any readings of the
clock, each new burst is announced, and a lasting one is not announced again, exactly when keys
are forgotten between bursts and only there. -/
theorem announcesBursts_iff (window : ℚ) (run : List Turn) :
    AnnouncesBursts window run ↔ ForgetsBetweenBursts window run :=
  announcesBursts_iff_of fun _ _ _ => Iff.rfl

/-- With the keys never forgotten, these are the runs in which every later correlation of a key
belongs to the burst of an earlier one. -/
theorem announcesBursts_iff_of_kept (hkept : ¬ ForgetsIn window [] run) :
    AnnouncesBursts window run ↔ ∀ m ∈ moments run, ∀ k, Correlates window m.1 m.2.1 k →
      ((∃ n ∈ moments m.1, Correlates window n.1 n.2.1 k) ↔ Lasts window m.1 m.2.1 k) := by
  refine announcesBursts_iff_of fun m hm k => ⟨?_, fun ⟨n, hn, hk, _⟩ => ⟨n, hn, hk⟩⟩
  intro ⟨n, hn, hk⟩
  refine ⟨n, hn, hk, fun ⟨c, hc, hforgets⟩ => ?_⟩
  have hsplit : run = (n.1 ++ c.1) ++ c.2.1 :: (c.2.2 ++ m.2.1 :: m.2.2) := by
    have hlater : n.1 ++ n.2.1 :: n.2.2 = n.1 ++ (c.1 ++ c.2.1 :: c.2.2) := by
      rw [mem_moments.mp hc]
    rw [mem_moments.mp hm, mem_moments.mp hn, hlater]
    simp
  exact hkept ⟨(n.1 ++ c.1, c.2.1, c.2.2 ++ m.2.1 :: m.2.2), mem_moments.mpr hsplit, hforgets⟩

end Runs

/-! ## Lasting bursts -/

section Window

variable {window : ℚ} {before later : List Turn} {t : Turn} {k : Key} {e : Event}

/-- The buffer after one more turn. -/
theorem buf_concat : (after window (before ++ [t])).buf = ((after window before).detect t).1 := by
  rw [after_concat, step, MainLoop.detect]
  cases t.line with
  | event e => rfl
  | _ => rfl

/-- Detecting does not change the window. -/
theorem windowS_detect (s : MainLoop) (t : Turn) : (s.detect t).1.windowS = s.buf.windowS := by
  rw [MainLoop.detect]
  cases t.line with
  | event e => rfl
  | _ => rfl

/-- The window stays the same throughout. -/
theorem windowS_after : (after window before).buf.windowS = window := by
  induction before using List.reverseRecOn with
  | nil => rfl
  | append_singleton before t ih => rw [buf_concat, windowS_detect, ih]

/-- An event stays in the window through a turn at which it does not leave. -/
theorem mem_detect (he : e ∈ (after window before).buf.events) (hstays : ¬ Left window e [t]) :
    e ∈ ((after window before).detect t).1.events := by
  rw [MainLoop.detect]
  cases hline : t.line with
  | event new =>
      have hnow : ∀ now ∈ [t.addedAt, t.detectedAt], now - window ≤ e.time := by
        intro now hnow
        refine not_lt.mp fun hlt => hstays ⟨now, ?_, hlt⟩
        simpa [Turn.readings, hline] using hnow
      simp only [detectCorrelations, EventBuffer.countByType, EventBuffer.add, EventBuffer.expire,
        windowS_after, List.mem_filter, List.mem_append, decide_eq_true_eq]
      exact ⟨⟨Or.inl he, hnow _ (by simp)⟩, hnow _ (by simp)⟩
  | _ => exact he

/-- An event stays in the buffer until it has left the window. -/
theorem mem_after (he : e ∈ (after window before).buf.events) (hstays : ¬ Left window e later) :
    e ∈ (after window (before ++ later)).buf.events := by
  induction later using List.reverseRecOn with
  | nil => rwa [List.append_nil]
  | append_singleton later t ih =>
      simp only [Left, List.flatMap_append, List.mem_append, or_and_right, exists_or,
        not_or] at hstays
      rw [← List.append_assoc, buf_concat]
      exact mem_detect (ih hstays.1) hstays.2

/-- **A burst lasts** in that the events behind the earlier correlation which have not left are
behind what correlates now. -/
theorem mem_behind_of_stays {m : List Turn × Turn × List Turn} (hm : m ∈ moments before)
    (he : e ∈ behind window m.1 m.2.1 k) (hstays : ¬ Left window e (m.2.2 ++ [t])) :
    e ∈ behind window before t k := by
  obtain ⟨hwindow, htype⟩ := List.mem_filter.mp he
  refine List.mem_filter.mpr ⟨?_, htype⟩
  have hsplit : before ++ [t] = (m.1 ++ [m.2.1]) ++ (m.2.2 ++ [t]) := by
    rw [mem_moments.mp hm]
    simp
  rw [← buf_concat] at hwindow ⊢
  rw [hsplit]
  exact mem_after hwindow hstays

end Window

/-- Three CE events in as many seconds from a time on. -/
def stormAt (now : ℚ) : List Turn :=
  [now, now + 1, now + 2].map fun t => ⟨.event ⟨"edac_ce", some t⟩, t, t⟩

/-- The third event of a storm. -/
def lastOfStorm (now : ℚ) : Turn := ⟨.event ⟨"edac_ce", some (now + 2)⟩, now + 2, now + 2⟩

/-- A second storm, a thousand seconds after the first, correlates and is not announced. -/
theorem second_storm_not_announced :
    Correlates 60 (stormAt 1000 ++ (stormAt 2000).take 2) (lastOfStorm 2000)
        (.eventStorm, "edac_ce") ∧
      announced 60 (stormAt 1000 ++ (stormAt 2000).take 2) (lastOfStorm 2000) = [] ∧
      ¬ AnnouncesBursts 60 (stormAt 1000 ++ stormAt 2000) := by
  have hcorrelates : Correlates 60 (stormAt 1000 ++ (stormAt 2000).take 2) (lastOfStorm 2000)
      (.eventStorm, "edac_ce") := by decide +kernel
  have hlast : (stormAt 1000 ++ (stormAt 2000).take 2, lastOfStorm 2000, []) ∈
      moments (stormAt 1000 ++ stormAt 2000) := mem_moments.mpr (by decide +kernel)
  have hsilent : announced 60 (stormAt 1000 ++ (stormAt 2000).take 2) (lastOfStorm 2000) = [] := by
    decide +kernel
  have hfresh : ¬ Lasts 60 (stormAt 1000 ++ (stormAt 2000).take 2) (lastOfStorm 2000)
      (.eventStorm, "edac_ce") := by decide +kernel
  refine ⟨hcorrelates, hsilent, fun h => ?_⟩
  have hannounced := ((h _ hlast).2 (.eventStorm, "edac_ce")).mpr ⟨hcorrelates, hfresh⟩
  rw [hsilent] at hannounced
  cases hannounced

end FaultOracle.Correlator
