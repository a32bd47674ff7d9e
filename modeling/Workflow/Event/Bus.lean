/-!
# The event bus

A bus hands every event to every receiver that subscribed before it was sent.  It keeps only the
latest events: a receiver that falls behind is told how many events it lost and goes on with the
oldest one that is kept.
-/
namespace Workflow

/-- The least power of two that is at least a number, and at least one. -/
def powerOfTwoAbove (n : Nat) : Nat :=
  if n ≤ 1 then 1 else Nat.pow 2 (Nat.log2 (n - 1) + 1)

/-- A bus: how many events it keeps, how many were sent, the kept ones with the latest first, and
for each receiver the number of the next event it is to get.  A receiver that was dropped has
none. -/
structure Bus (α : Type u) where
  capacity : Nat
  sent : Nat
  kept : List α
  receivers : List (Option Nat)

namespace Bus

variable {α : Type u}

/-- A bus that keeps at least the given number of events, rounded up to a power of two. -/
def ofCapacity (n : Nat) : Bus α := ⟨powerOfTwoAbove (max 1 n), 0, [], []⟩

/-- A new receiver, and its number.  It gets the events sent from now on. -/
def subscribe (b : Bus α) : Nat × Bus α :=
  (b.receivers.length, { b with receivers := b.receivers ++ [some b.sent] })

def publish (b : Bus α) (event : α) : Bus α :=
  { b with sent := b.sent + 1, kept := (event :: b.kept).take b.capacity }

def drop (b : Bus α) (receiver : Nat) : Bus α :=
  { b with receivers := b.receivers.set receiver none }

/-- What a receiver gets. -/
inductive Received (α : Type u) where
  | event (event : α)
  | nothing
  | lagged (lost : Nat)
  | dropped

/-- The number of the oldest event that is kept. -/
def oldest (b : Bus α) : Nat := b.sent - b.kept.length

/-- Takes the next event of a receiver.  One that fell behind is told so first. -/
def receive (b : Bus α) (receiver : Nat) : Received α × Bus α :=
  match (b.receivers[receiver]?).join with
  | none => (.dropped, b)
  | some position =>
    if position < b.oldest then
      (.lagged (b.oldest - position),
        { b with receivers := b.receivers.set receiver (some b.oldest) })
    else
      match b.kept.reverse[position - b.oldest]? with
      | some e => (.event e, { b with receivers := b.receivers.set receiver (some (position + 1)) })
      | none => (.nothing, b)

/-- Everything that a receiver gets until there is nothing more. -/
def drain (b : Bus α) (receiver : Nat) : List (Received α) :=
  match (b.receivers[receiver]?).join with
  | none => []
  | some position =>
    let lost := b.oldest - position
    (if position < b.oldest then [.lagged lost] else []) ++
      (b.kept.reverse.drop (position - b.oldest)).map .event

end Bus

/-- A bounded queue of events.  An event that finds the queue full or closed is dropped. -/
structure BoundedQueue (α : Type u) where
  capacity : Nat
  items : List α
  closed : Bool

namespace BoundedQueue

variable {α : Type u}

/-- An empty queue with room for at least one event. -/
def ofCapacity (n : Nat) : BoundedQueue α := ⟨max 1 n, [], false⟩

def push (q : BoundedQueue α) (event : α) : BoundedQueue α :=
  if q.closed || q.capacity ≤ q.items.length then q else { q with items := q.items ++ [event] }

def pop? (q : BoundedQueue α) : Option (α × BoundedQueue α) :=
  match q.items with
  | [] => none
  | e :: rest => some (e, { q with items := rest })

/-- Closes the queue; what is still in it is lost. -/
def close (q : BoundedQueue α) : BoundedQueue α := { q with items := [], closed := true }

end BoundedQueue
end Workflow
