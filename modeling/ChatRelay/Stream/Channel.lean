/-!
# Bounded channels

A queue between one producer and one consumer. A push waits while the queue is full and a pop while
it is empty; here waiting is an answer of its own, so that schedules can be told apart. Either side
may close the channel; after that no push enters it, and pops bring what is left.
-/

namespace ChatRelay

structure Channel (α : Type) where
  /-- The configured capacity; 0 counts as 1. -/
  capacity : Nat
  queue : List α := []
  closed : Bool := false

namespace Channel

variable {α : Type}

/-- How many items may wait. -/
def room (c : Channel α) : Nat :=
  max 1 c.capacity

/-- What a push comes to. -/
inductive Push (α : Type) where
  | accepted (next : Channel α)
  /-- The channel is closed. -/
  | refused
  /-- The channel is full. -/
  | waits

/-- What a pop comes to. -/
inductive Pop (α : Type) where
  | received (item : α) (next : Channel α)
  /-- The channel is closed and empty. -/
  | ended
  /-- The channel is empty. -/
  | waits

def push (c : Channel α) (item : α) : Push α :=
  if c.closed then .refused
  else if c.queue.length < c.room then .accepted { c with queue := c.queue ++ [item] }
  else .waits

def pop (c : Channel α) : Pop α :=
  match c.queue with
  | item :: rest => .received item { c with queue := rest }
  | [] => if c.closed then .ended else .waits

def close (c : Channel α) : Channel α :=
  { c with closed := true }

end Channel

end ChatRelay
