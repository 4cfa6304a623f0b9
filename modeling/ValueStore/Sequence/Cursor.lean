import ValueStore.Action

/-!
# Going through a sequence

A cursor holds the elements still to come and counts them down from the length of
the sequence it was made from.
-/

namespace ValueStore

namespace Sequence

variable {α : Type}

structure Cursor (α : Type) where
  pending : List α
  remaining : Nat

def cursor (s : Sequence α) : Action α (Cursor α) := do
  return { pending := ← Action.elements s, remaining := s.length }

namespace Cursor

def next (cursor : Cursor α) : Option α × Cursor α :=
  match cursor.pending with
  | [] => (none, cursor)
  | x :: rest => (some x, { pending := rest, remaining := cursor.remaining - 1 })

def drawFrom (cursor : Cursor α) (drawn : Array (Option α)) :
    Nat -> Array (Option α) × Cursor α
  | 0 => (drawn, cursor)
  | n + 1 => cursor.next.2.drawFrom (drawn.push cursor.next.1) n

def draw (cursor : Cursor α) (n : Nat) : Array (Option α) × Cursor α :=
  cursor.drawFrom #[] n

def length (cursor : Cursor α) : Nat :=
  cursor.remaining

def sizeHint (cursor : Cursor α) : Nat × Option Nat :=
  (cursor.remaining, some cursor.remaining)

end Cursor

end Sequence

end ValueStore
