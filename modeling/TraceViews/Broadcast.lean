/-!
# Broadcasts

A broadcast is sent to any number of receivers, each of which reads at its own pace. Only the
newest values are kept for them: a receiver that has fallen further behind is told how many values
it missed and goes on with the oldest one that is kept.
-/

namespace TraceViews

/-- Everything sent so far, the oldest value first; `capacity` values of it are kept for
receivers. -/
structure Broadcast (capacity : Nat) (α : Type) where
  sent : Array α

/-- A receiver's place: the number of values sent before the next one for it. -/
abbrev Cursor := Nat

/-- What a receiver is given: how many values it missed, the values that wait for it, and its next
place. -/
structure Delivery (α : Type) where
  missed : Nat
  values : List α
  next : Cursor

namespace Broadcast

variable {capacity : Nat} {α : Type}

/-- Nothing sent. -/
def empty : Broadcast capacity α := ⟨#[]⟩

/-- The place of a receiver that gets only what is sent from now on. -/
def subscribe (b : Broadcast capacity α) : Cursor := b.sent.size

/-- Sends a value to every receiver. -/
def send (b : Broadcast capacity α) (a : α) : Broadcast capacity α := ⟨b.sent.push a⟩

/-- The place of the oldest value that is kept. -/
def oldest (b : Broadcast capacity α) : Cursor := b.sent.size - capacity

/-- Gives a receiver everything that waits for it. -/
def deliver (b : Broadcast capacity α) (c : Cursor) : Delivery α where
  missed := b.oldest - c
  values := (b.sent.extract (max c b.oldest)).toList
  next := b.sent.size

end Broadcast

end TraceViews
