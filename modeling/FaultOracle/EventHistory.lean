import FaultOracle.EventCorrelator
import FaultOracle.ExpiringLogs
import FaultOracle.KeyedFolds

/-!
# The event buffer and the history of events

`EventBuffer` of `correlation/event_correlator.py` drops events for good whenever it is used.
What it is there for needs no dropping: a query is about the events, of all that were ever
added, whose timestamp is not before the window (`answerOf`).

`answer_eq`: with a clock that does not go back, every query is answered so, whatever the
timestamps of the events are.
-/

namespace FaultOracle.Correlator

open ExpiringLogs InsertionDict

/-! ## The buffer -/

/-- `events_of_type`. -/
def EventBuffer.eventsOfType (now : ℚ) (eventType : String) (b : EventBuffer) :
    EventBuffer × List Event :=
  (b.expire now, (b.expire now).events.filter fun e => e.eventType == eventType)

/-- `recent`. -/
def EventBuffer.recent (now : ℚ) (b : EventBuffer) : EventBuffer × List Event :=
  (b.expire now, (b.expire now).events)

/-- What a program does with a buffer. -/
inductive Operation
  | add (e : Event)
  | recent
  | eventsOfType (eventType : String)
  | countByType
deriving DecidableEq

/-- An operation, and the clock when it looks. -/
structure Call where
  now : ℚ
  operation : Operation
deriving DecidableEq

/-- What an operation returns. -/
inductive Answer
  | nothing
  | events (events : List Event)
  | counts (counts : List (String × Nat))
deriving DecidableEq

/-- The buffer after a call, and the answer. -/
def EventBuffer.call (b : EventBuffer) (c : Call) : EventBuffer × Answer :=
  match c.operation with
  | .add e => (b.add c.now e, .nothing)
  | .recent => ((b.recent c.now).1, .events (b.recent c.now).2)
  | .eventsOfType t => ((b.eventsOfType c.now t).1, .events (b.eventsOfType c.now t).2)
  | .countByType => ((b.countByType c.now).1, .counts (b.countByType c.now).2)

/-- The buffer after some calls. -/
def EventBuffer.after (b : EventBuffer) (calls : List Call) : EventBuffer :=
  calls.foldl (fun b c => (b.call c).1) b

/-! ## The history -/

/-- The event which a call adds. -/
def Call.added (c : Call) : List Event :=
  match c.operation with
  | .add e => [e]
  | _ => []

/-- All events added so far, in the order in which they came. -/
def history (calls : List Call) : List Event := calls.flatMap Call.added

/-- How often each type is there, in the order in which the types came first. -/
def tally (events : List Event) : List (String × Nat) :=
  (events.map Event.eventType).eraseDups.map fun t => (t, countOf t events)

/-- What a call is to answer, of all events added so far. -/
def answerOf (windowS : ℚ) (added : List Event) (c : Call) : Answer :=
  let recent := added.filter fun e => decide (c.now - windowS ≤ e.time)
  match c.operation with
  | .add _ => .nothing
  | .recent => .events recent
  | .eventsOfType t => .events (recent.filter fun e => e.eventType == t)
  | .countByType => .counts (tally recent)

/-! ## Refinement -/

section Refinement

variable {windowS now : ℚ} {added : List Event} {b : EventBuffer} {c : Call} {calls : List Call}

/-- The buffer stands for the events added so far, as long as the clock is not before `now`. -/
structure Represents (windowS now : ℚ) (added : List Event) (b : EventBuffer) : Prop where
  window : b.windowS = windowS
  keeps : Keeps Event.time (now - windowS) added b.events

theorem expire_events (now : ℚ) (b : EventBuffer) :
    (b.expire now).events = since Event.time (now - b.windowS) b.events := rfl

theorem Represents.expire (h : Represents windowS now added b) (hclock : now ≤ c.now) :
    Represents windowS c.now added (b.expire c.now) := by
  refine ⟨h.window, ?_⟩
  rw [expire_events, h.window]
  exact h.keeps.expire (sub_le_sub_right hclock windowS)

theorem Represents.expire_events (h : Represents windowS now added b) (hclock : now ≤ c.now) :
    (b.expire c.now).events = added.filter fun e => decide (c.now - windowS ≤ e.time) := by
  rw [Correlator.expire_events, h.window]
  exact h.keeps.since_eq (sub_le_sub_right hclock windowS)

theorem Represents.add (h : Represents windowS now added b) (hclock : now ≤ c.now) (e : Event) :
    Represents windowS c.now (added ++ [e]) (b.add c.now e) := by
  have happend : Represents windowS now (added ++ [e]) { b with events := b.events ++ [e] } :=
    ⟨h.window, h.keeps.append [e]⟩
  exact happend.expire hclock

/-- **One call.** -/
theorem Represents.call (h : Represents windowS now added b) (hclock : now ≤ c.now) :
    Represents windowS c.now (added ++ c.added) (b.call c).1 := by
  unfold EventBuffer.call Call.added
  cases c.operation with
  | add e => exact h.add hclock e
  | _ =>
      rw [List.append_nil]
      exact h.expire hclock

/-- The counter is the tally. -/
theorem typeCounts_eq (events : List Event) : typeCounts events = tally events :=
  foldl_bump_eq (events.map Event.eventType)

theorem Represents.answer (h : Represents windowS now added b) (hclock : now ≤ c.now) :
    (b.call c).2 = answerOf windowS added c := by
  have hevents := h.expire_events hclock
  unfold EventBuffer.call answerOf
  cases c.operation with
  | add e => rfl
  | recent => simp only [EventBuffer.recent, hevents]
  | eventsOfType t => simp only [EventBuffer.eventsOfType, hevents]
  | countByType => simp only [EventBuffer.countByType, hevents, typeCounts_eq]

/-- **A run of calls.** -/
theorem Represents.after (h : Represents windowS now added b) (hnow : ∀ c ∈ calls, now ≤ c.now)
    (hclock : calls.Pairwise fun c d => c.now ≤ d.now) (query : Call)
    (hlate : now ≤ query.now) (hquery : ∀ c ∈ calls, c.now ≤ query.now) :
    ((b.after calls).call query).2 = answerOf windowS (added ++ history calls) query := by
  induction calls generalizing now added b with
  | nil =>
      rw [history, List.flatMap_nil, List.append_nil]
      exact h.answer hlate
  | cons c calls ih =>
      obtain ⟨hfirst, hrest⟩ := List.pairwise_cons.mp hclock
      obtain ⟨hcquery, hquery⟩ := List.forall_mem_cons.mp hquery
      have hstep := h.call (c := c) (hnow c List.mem_cons_self)
      have hanswer := ih hstep hfirst hrest hcquery hquery
      rw [List.append_assoc] at hanswer
      exact hanswer

/-- **The buffer answers as the history does.**  The calls come in the order of the clock, and
the query is the last one; the timestamps of the events are any. -/
theorem answer_eq (windowS : ℚ) (calls : List Call) (query : Call)
    (hclock : (calls ++ [query]).Pairwise fun c d => c.now ≤ d.now) :
    (((EventBuffer.new windowS).after calls).call query).2 =
      answerOf windowS (history calls) query := by
  obtain ⟨hcalls, _, hquery⟩ := List.pairwise_append.mp hclock
  have hquery : ∀ c ∈ calls, c.now ≤ query.now := fun c hc =>
    hquery c hc query (List.mem_singleton.mpr rfl)
  cases calls with
  | nil =>
      have hstart : Represents windowS query.now [] (.new windowS) := ⟨rfl, keeps_self []⟩
      exact hstart.answer le_rfl
  | cons c calls =>
      have hstart : Represents windowS c.now [] (.new windowS) := ⟨rfl, keeps_self []⟩
      have hnow : ∀ d ∈ c :: calls, c.now ≤ d.now :=
        List.forall_mem_cons.mpr ⟨le_rfl, (List.pairwise_cons.mp hcalls).1⟩
      exact hstart.after hnow hcalls query (hquery c List.mem_cons_self) hquery

/-- An event that comes late with an old timestamp is not counted, and one on the edge is. -/
theorem late_event_answered :
    (((EventBuffer.new 60).after
        [⟨100, .add ⟨"edac_ce", some 40⟩⟩, ⟨101, .add ⟨"edac_ce", some 45⟩⟩,
          ⟨102, .add ⟨"mce", some 300⟩⟩]).call ⟨105, .countByType⟩).2 =
      answerOf 60 [⟨"edac_ce", some 40⟩, ⟨"edac_ce", some 45⟩, ⟨"mce", some 300⟩]
        ⟨105, .countByType⟩ :=
  answer_eq 60 _ _ (by decide +kernel)

end Refinement

end FaultOracle.Correlator
