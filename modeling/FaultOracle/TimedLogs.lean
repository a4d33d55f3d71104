import Mathlib.Algebra.Order.Group.Defs
import Mathlib.Algebra.Order.Group.Unbundled.Basic
import Mathlib.Data.List.Basic
import Mathlib.Data.List.Induction
import Mathlib.Logic.Function.Basic
import Mathlib.Tactic.Abel

/-!
# Logs of timed events: spacing and sliding windows

Two disciplines by which a program limits how often it acts, stated on the log
of what it did, oldest event first.

* `Spaced`: two events of the same key are at least `gap` apart.  A program keeps
  this with one register per key, set at every event to a time not earlier than
  the event (`Covers`), and an event is let through only `gap` after the register.
* `Admitted`: each event found fewer than `limit` earlier ones in the stretch of
  length `width` before it.  Then no set of times narrower than `width` holds
  more than `limit` events (`Admitted.window_le`), wherever it lies.
* `Muted`: some events pass a verdict, and from a bad one until the next good one
  nothing is emitted.  A log is muted when each emission finds the latest verdict
  not bad (`muted_snoc`).
-/

namespace TimedLogs

variable {ε κ τ : Type*}

section Spacing

variable [LinearOrder τ] {key : ε → κ} {time : ε → τ} {gap : τ}

/-- Any two events of one key, in the order of the log, are at least `gap` apart. -/
def Spaced [Add τ] (key : ε → κ) (time : ε → τ) (gap : τ) (log : List ε) : Prop :=
  log.Pairwise (fun a b => key a = key b → time a + gap ≤ time b)

/-- The register of an event's key holds a time which is not before the event. -/
def Covers (key : ε → κ) (time : ε → τ) (register : κ → Option τ) (log : List ε) : Prop :=
  ∀ e ∈ log, ∃ r, register (key e) = some r ∧ time e ≤ r

theorem spaced_nil [Add τ] : Spaced key time gap [] := List.Pairwise.nil

theorem covers_nil (register : κ → Option τ) : Covers key time register [] := by
  simp [Covers]

/-- An event which waits for `gap` after its register keeps the log spaced. -/
theorem Spaced.snoc [AddCommGroup τ] [IsOrderedAddMonoid τ] {register : κ → Option τ}
    {log : List ε} {e : ε}
    (hlog : Spaced key time gap log) (hcover : Covers key time register log)
    (hwait : ∀ r, register (key e) = some r → r + gap ≤ time e) :
    Spaced key time gap (log ++ [e]) := by
  refine List.pairwise_append.mpr ⟨hlog, List.pairwise_singleton _ _, ?_⟩
  intro old hold new hnew hkey
  obtain rfl := List.mem_singleton.mp hnew
  obtain ⟨r, hr, hle⟩ := hcover old hold
  calc time old + gap ≤ r + gap := by gcongr
    _ ≤ time new := hwait r (hkey ▸ hr)

/-- Times at least `gap` apart, from `a` on and before `b`: there are no more of them than
fit. -/
theorem nsmul_lt_of_pairwise [AddCommGroup τ] [IsOrderedAddMonoid τ] {times : List τ} {a b : τ}
    (hgap : times.Pairwise (fun s t => s + gap ≤ t)) (ha : ∀ t ∈ times, a ≤ t)
    (hb : ∀ t ∈ times, t < b) (hab : a < b + gap) : times.length • gap + a < b + gap := by
  induction times generalizing a with
  | nil => simpa using hab
  | cons t times ih =>
      obtain ⟨hhead, htail⟩ := List.pairwise_cons.mp hgap
      obtain ⟨hat, -⟩ := List.forall_mem_cons.mp ha
      obtain ⟨htb, hb'⟩ := List.forall_mem_cons.mp hb
      have hrest := ih htail hhead hb' (by gcongr)
      calc (t :: times).length • gap + a ≤ (t :: times).length • gap + t := by gcongr
        _ = times.length • gap + (t + gap) := by
            rw [List.length_cons, succ_nsmul]
            abel
        _ < b + gap := hrest

/-- Setting the register of an event, no earlier than anything logged so far. -/
theorem Covers.snoc [DecidableEq κ] {register : κ → Option τ} {log : List ε} {e : ε} {r : τ}
    (hcover : Covers key time register log) (hlog : ∀ old ∈ log, time old ≤ r)
    (he : time e ≤ r) :
    Covers key time (Function.update register (key e) (some r)) (log ++ [e]) := by
  intro a ha
  rcases List.mem_append.mp ha with hold | hnew
  · by_cases hkey : key a = key e
    · exact ⟨r, by simp [hkey], hlog a hold⟩
    · obtain ⟨r', hr', hle⟩ := hcover a hold
      exact ⟨r', by simpa [Function.update_of_ne hkey] using hr', hle⟩
  · obtain rfl := List.mem_singleton.mp hnew
    exact ⟨r, by simp, he⟩

/-- Every time in a register is that of an event. -/
def Witnessed (key : ε → κ) (time : ε → τ) (register : κ → Option τ) (log : List ε) : Prop :=
  ∀ k r, register k = some r → ∃ e ∈ log, key e = k ∧ time e = r

omit [LinearOrder τ] in
/-- Writing the time of an entry keeps the register witnessed. -/
theorem Witnessed.snoc [DecidableEq κ] {register : κ → Option τ} {log : List ε}
    (h : Witnessed key time register log) (e : ε) :
    Witnessed key time (Function.update register (key e) (some (time e))) (log ++ [e]) := by
  intro k r hr
  by_cases hk : k = key e
  · rw [hk, Function.update_self] at hr
    exact ⟨e, by simp, hk.symm, Option.some.inj hr⟩
  · rw [Function.update_of_ne hk] at hr
    obtain ⟨old, hold, hkey, htime⟩ := h k r hr
    exact ⟨old, List.mem_append_left _ hold, hkey, htime⟩

end Spacing

section Windows

variable [LinearOrder τ] {width : τ} {limit : Nat}

/-- Every event of the log found fewer than `limit` earlier events after the time
`width` before it. -/
inductive Admitted [Sub τ] (width : τ) (limit : Nat) : List τ → Prop
  | nil : Admitted width limit []
  | snoc {log : List τ} {t : τ} (hlog : Admitted width limit log)
      (hcount : (log.filter (fun s => t - width < s)).length < limit) :
      Admitted width limit (log ++ [t])

/-- **Window bound.**  A set of times any two of which are less than `width` apart
holds at most `limit` events of an admitted log. -/
theorem Admitted.window_le [AddCommGroup τ] [IsOrderedAddMonoid τ] {log : List τ}
    (h : Admitted width limit log)
    (W : τ → Prop) [DecidablePred W] (hW : ∀ s t, W s → W t → t < s + width) :
    (log.filter W).length ≤ limit := by
  induction h with
  | nil => simp
  | @snoc log t hlog hcount ih =>
      by_cases ht : W t
      · have hsub : (log.filter W).length ≤ (log.filter (fun s => t - width < s)).length := by
          refine (List.monotone_filter_right log ?_).length_le
          intro s hs
          have hs' : W s := by simpa using hs
          simpa [sub_lt_iff_lt_add] using hW s t hs' ht
        simp only [List.filter_append, List.filter_cons, ht, decide_true, if_true,
          List.filter_nil, List.length_append, List.length_singleton]
        omega
      · simpa [List.filter_append, ht] using ih

/-- A pruned copy of a log still counts everything after a later cutoff. -/
theorem filter_of_pruned {log kept : List τ} {cutoff later : τ}
    (hkept : kept = log.filter (fun s => cutoff < s)) (hle : cutoff ≤ later) :
    kept.filter (fun s => later < s) = log.filter (fun s => later < s) := by
  rw [hkept, List.filter_filter]
  refine List.filter_congr fun s _ => ?_
  by_cases hs : later < s
  · simp [hs, lt_of_le_of_lt hle hs]
  · simp [hs]

end Windows

section Muting

variable {verdict : ε → Option Bool} {emits : ε → Prop}

/-- No event emits between a bad verdict (`true`) and the next good one. -/
def Muted (verdict : ε → Option Bool) (emits : ε → Prop) (log : List ε) : Prop :=
  ∀ before mid after x y, log = before ++ x :: (mid ++ y :: after) →
    verdict x = some true → emits y → ∃ z ∈ mid, verdict z = some false

/-- The latest verdict in a log. -/
def lastVerdict (verdict : ε → Option Bool) (log : List ε) : Option Bool :=
  (log.filterMap verdict).getLast?

@[simp] theorem lastVerdict_nil : lastVerdict verdict [] = none := rfl

theorem lastVerdict_append (old new : List ε) :
    lastVerdict verdict (old ++ new) = (lastVerdict verdict new).or (lastVerdict verdict old) := by
  simp [lastVerdict, List.filterMap_append, List.getLast?_append]

/-- The verdict of a single entry. -/
theorem lastVerdict_singleton (e : ε) : lastVerdict verdict [e] = verdict e := by
  cases h : verdict e <;> simp [lastVerdict, h]

/-- The last verdict comes from an entry. -/
theorem mem_of_lastVerdict {log : List ε} {v : Bool} (h : lastVerdict verdict log = some v) :
    ∃ z ∈ log, verdict z = some v := by
  have hmem : v ∈ log.filterMap verdict := List.mem_of_getLast? h
  simpa using hmem

/-- The latest verdict splits the log, none being passed after it. -/
theorem split_of_lastVerdict {log : List ε} {v : Bool} (h : lastVerdict verdict log = some v) :
    ∃ before x mid, log = before ++ x :: mid ∧ verdict x = some v ∧
      ∀ z ∈ mid, verdict z = none := by
  induction log using List.reverseRecOn with
  | nil => simp at h
  | append_singleton log e ih =>
      rw [lastVerdict_append, lastVerdict_singleton] at h
      cases he : verdict e with
      | some w =>
          have hw : w = v := by simpa [he] using h
          exact ⟨log, e, [], rfl, by rw [he, hw], by simp⟩
      | none =>
          obtain ⟨before, x, mid, rfl, hx, hmid⟩ := ih (by simpa [he] using h)
          refine ⟨before, x, mid ++ [e], by simp, hx, ?_⟩
          intro z hz
          rcases List.mem_append.mp hz with hz | hz
          · exact hmid z hz
          · rw [List.mem_singleton.mp hz, he]

theorem Muted.of_append {old new : List ε} (h : Muted verdict emits (old ++ new)) :
    Muted verdict emits old := by
  intro before mid after x y hold hx hy
  exact h before mid (after ++ new) x y (by simp [hold]) hx hy

/-- **Muting, event by event.**  A log stays muted precisely if what it ends with
emits nothing while the latest verdict is bad. -/
theorem muted_snoc {log : List ε} {e : ε} :
    Muted verdict emits (log ++ [e]) ↔
      Muted verdict emits log ∧ (emits e → lastVerdict verdict log ≠ some true) := by
  constructor
  · intro h
    refine ⟨h.of_append, ?_⟩
    intro he hlast
    obtain ⟨before, x, mid, rfl, hx, hmid⟩ := split_of_lastVerdict hlast
    obtain ⟨z, hz, hgood⟩ := h before mid [] x e (by simp) hx he
    simp [hmid z hz] at hgood
  · rintro ⟨hlog, hend⟩ before mid after x y hsplit hx hy
    rcases List.eq_nil_or_concat' after with rfl | ⟨after, e', rfl⟩
    · have hparts : log ++ [e] = (before ++ x :: mid) ++ [y] := by simp [hsplit]
      obtain ⟨rfl, hlast⟩ := List.append_inj' hparts rfl
      obtain rfl : e = y := by simpa using hlast
      have hnot := hend hy
      rw [← List.singleton_append, lastVerdict_append, lastVerdict_append,
        lastVerdict_singleton, hx] at hnot
      cases hv : lastVerdict verdict mid with
      | none => simp [hv] at hnot
      | some v =>
          obtain rfl : v = false := by simpa [hv] using hnot
          exact mem_of_lastVerdict hv
    · have hparts : log ++ [e] = (before ++ x :: (mid ++ y :: after)) ++ [e'] := by
        simp [hsplit]
      exact hlog before mid after x y (List.append_inj' hparts rfl).1 hx hy

/-- Events which do not emit keep a log muted. -/
theorem muted_append_of_quiet {old new : List ε} (hquiet : ∀ e ∈ new, ¬ emits e) :
    Muted verdict emits (old ++ new) ↔ Muted verdict emits old := by
  induction new using List.reverseRecOn with
  | nil => simp
  | append_singleton new e ih =>
      have hrest := ih (fun a ha => hquiet a (List.mem_append_left _ ha))
      have he : ¬ emits e := hquiet e (by simp)
      rw [← List.append_assoc, muted_snoc, hrest]
      exact ⟨fun h => h.1, fun h => ⟨h, fun hemit => absurd hemit he⟩⟩

end Muting

end TimedLogs
