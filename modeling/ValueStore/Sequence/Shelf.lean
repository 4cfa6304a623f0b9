import ValueStore.Sequence.Cursor
import ValueStore.Sequence.ListFormat
import ValueStore.Text.Collection

/-!
# Shelves of sequences

A shelf keeps every version of a sequence that a run has made, in the order in which
they were made. A step works on versions by their numbers. It answers a question, or
it puts one more version on the shelf; a refused step leaves the shelf as it was.
-/

namespace ValueStore

namespace Sequence

structure Element (α σ : Type) where
  agree : α -> α -> Action α Bool
  display : α -> Action α String
  debug : α -> Action α String
  format : ListFormat α σ String

inductive Step (α : Type) where
  | empty
  | clone
  | ofList (elements : List α)
  | prepend (elements : List α)
  | append (elements : List α)
  | reverse
  | rest
  | concat (others : List Nat)
  | drop (n : Nat)
  | head
  | last
  | get (index : Nat)
  | length
  | isEmpty
  | toList
  | draw (n : Nat)
  | agree (other : Nat)
  | same (other : Nat)
  | display
  | debug
  | serialize

inductive Answer (α : Type) where
  /-- The number of the new version, and the version. -/
  | version (number : Nat) (s : Sequence α)
  | element (x : α)
  | element? (x : Option α)
  | elements (xs : List α)
  /-- What was drawn, and what the cursor tells of its length then. -/
  | drawn (items : List (Option α)) (left : Nat) (hint : Nat × Option Nat)
  | count (n : Nat)
  | truth (b : Bool)
  | text (s : String)

structure Shelf (α : Type) where
  versions : Array (Sequence α)

namespace Shelf

variable {α σ : Type}

def start : Action α (Shelf α) := do
  return { versions := #[← Sequence.empty] }

def newest (shelf : Shelf α) : Nat :=
  shelf.versions.size - 1

/-- The version of a number. A number not given yet stands for a sequence of no elements. -/
def version (shelf : Shelf α) (number : Nat) : Sequence α :=
  shelf.versions.getD number (emptyAt 0)

def push (shelf : Shelf α) (s : Sequence α) : Answer α × Shelf α :=
  (.version shelf.versions.size s, { versions := shelf.versions.push s })

def step (element : Element α σ) (shelf : Shelf α) (number : Nat) :
    Step α -> Action α (Answer α × Shelf α)
  | .empty => do return shelf.push (← Sequence.empty)
  | .clone => return shelf.push (shelf.version number)
  | .ofList elements => do return shelf.push (← Sequence.ofList elements)
  | .prepend elements => do return shelf.push (← (shelf.version number).prepend elements)
  | .append elements => do return shelf.push (← (shelf.version number).append elements)
  | .reverse => do return shelf.push (← (shelf.version number).reverse)
  | .rest => do return shelf.push (← (shelf.version number).rest)
  | .concat others => do
      return shelf.push (← (shelf.version number).concat (others.map shelf.version))
  | .drop n => do return shelf.push (← (shelf.version number).drop n)
  | .head => do return (.element (← (shelf.version number).head), shelf)
  | .last => do return (.element (← (shelf.version number).last), shelf)
  | .get index => do return (.element? (← (shelf.version number).get? index), shelf)
  | .length => return (.count (shelf.version number).length, shelf)
  | .isEmpty => return (.truth (shelf.version number).isEmpty, shelf)
  | .toList => do return (.elements (← Action.elements (shelf.version number)), shelf)
  | .draw n => do
      let (items, cursor) := (← (shelf.version number).cursor).draw n
      return (.drawn items.toList cursor.length cursor.sizeHint, shelf)
  | .agree other => do
      let equal ← (shelf.version number).agree element.agree (shelf.version other)
      return (.truth equal, shelf)
  | .same other => do
      let equal ← (shelf.version number).same element.agree (shelf.version other)
      return (.truth equal, shelf)
  | .display => do return (.text (← (shelf.version number).text element.display), shelf)
  | .debug => do return (.text (← (shelf.version number).text element.debug), shelf)
  | .serialize => do return (.text (← (shelf.version number).serialize element.format), shelf)

end Shelf

end Sequence

end ValueStore
