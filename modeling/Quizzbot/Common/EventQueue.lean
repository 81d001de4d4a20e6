import Quizzbot.Lib.Run

/-!
# `Common.EventQueue` — the queue between two threads (`event_queue.h`)

`push`, `size` and `empty` each hold the mutex, so each is one step. The consumers (`game::loop`, and the
two loops of the client's `main`) poll: they read the size, and take the whole content in a second step if
it was not 0. Between the two, producers may push.
-/

namespace Quizzbot

/-- `event_queue`. -/
structure EventQueue (α : Type) where
  queue_ : List α := []
deriving DecidableEq

namespace EventQueue

variable {α : Type}

def push (q : EventQueue α) (element : α) : EventQueue α := { queue_ := q.queue_ ++ [element] }

def size (q : EventQueue α) : Nat := q.queue_.length

/-- `empty`: swap the content with that of a new queue, and return it. -/
def empty (q : EventQueue α) : List α × EventQueue α := (q.queue_, {})

end EventQueue

/-- A step on the queue, with its argument or its result. -/
inductive QueueOp (ι α : Type) where
  | push (producer : ι) (element : α)
  | size (n : Nat)
  | empty (batch : List α)
deriving DecidableEq

/-- The queue, and what its one consumer remembers: that the size it read last was not 0. -/
structure Polling (α : Type) where
  queue   : EventQueue α := {}
  nonzero : Bool := false
deriving DecidableEq

/-- Producers push at any time; the consumer takes the content only after it has read a size other than
    0. -/
inductive Polling.Step {ι α : Type} : Polling α → QueueOp ι α → Polling α → Prop
  | push {s producer element} :
      Step s (.push producer element) { s with queue := s.queue.push element }
  | size {s} : Step s (.size s.queue.size) { s with nonzero := decide (s.queue.size ≠ 0) }
  | empty {s} (h : s.nonzero = true) : Step s (.empty s.queue.empty.1) { queue := s.queue.empty.2 }

end Quizzbot
