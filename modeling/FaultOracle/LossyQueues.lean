import Mathlib.Data.List.Basic

/-!
# Queues which may be full

A producer offers to a queue, which takes what it is offered or has no room for it.  A consumer
takes some from the front at a time, and goes on from its state with each.

`flush_run` is what no order of the two changes: the consumer, once it has taken what is still
there, has gone through all that was accepted, in the order in which it was offered.
-/

namespace LossyQueues

/-- The queue, and the state of its consumer. -/
structure Link (α σ : Type*) where
  queue : List α
  sink : σ

/-- What happens to a queue.  An offer which is refused leaves nothing. -/
inductive Event (α : Type*)
  | offer (accepted : Option α)
  | take (n : Nat)

variable {α σ : Type*} (consume : σ → α → σ)

def Link.step (l : Link α σ) : Event α → Link α σ
  | .offer none => l
  | .offer (some a) => { l with queue := l.queue ++ [a] }
  | .take n => ⟨l.queue.drop n, (l.queue.take n).foldl consume l.sink⟩

def Link.run (l : Link α σ) (events : List (Event α)) : Link α σ :=
  events.foldl (Link.step consume) l

/-- The state of the consumer when it has taken all that is there. -/
def Link.flush (l : Link α σ) : σ := l.queue.foldl consume l.sink

/-- What the queue had room for, in order. -/
def accepted : List (Event α) → List α
  | [] => []
  | .offer (some a) :: events => a :: accepted events
  | .offer none :: events => accepted events
  | .take _ :: events => accepted events

variable {consume} {l : Link α σ} {events : List (Event α)}

theorem flush_offer (a : α) :
    (l.step consume (.offer (some a))).flush consume = consume (l.flush consume) a := by
  rw [Link.step, Link.flush, List.foldl_append]
  rfl

/-- What is taken has been there. -/
theorem flush_take (n : Nat) : (l.step consume (.take n)).flush consume = l.flush consume := by
  rw [Link.step, Link.flush, Link.flush, ← List.foldl_append, List.take_append_drop]

/-- **Nothing is lost or doubled** behind the entrance of the queue. -/
theorem flush_run :
    (l.run consume events).flush consume = (accepted events).foldl consume (l.flush consume) := by
  induction events generalizing l with
  | nil => rfl
  | cons event events ih =>
      rw [Link.run, List.foldl_cons]
      refine (ih (l := l.step consume event)).trans ?_
      match event with
      | .offer none => rfl
      | .offer (some a) => rw [flush_offer, accepted, List.foldl_cons]
      | .take n => rw [flush_take, accepted]

/-- Where nothing is left in the queue, the consumer has gone through all that was accepted. -/
theorem sink_run (h : (l.run consume events).queue = []) :
    (l.run consume events).sink = (accepted events).foldl consume (l.flush consume) := by
  rw [← flush_run, Link.flush, h, List.foldl_nil]

end LossyQueues
