import ValueStore.Format
import ValueStore.Source

/-!
# Sequences of sequences

Integers, strings, and sequences of these to any depth. The sequences in a sequence are
its elements, so all of them ask the same cells for their elements in order. A shape says
which kind is meant, and the elements of one sequence are all of one shape.
-/

namespace ValueStore

inductive Nested where
  | integer (n : Int64)
  | string (s : String)
  | sequence (items : Sequence Nested)

inductive Shape where
  | int64
  | string
  | sequence (element : Shape)

namespace Shape

variable {π ω ι σ τ : Type}

/-- How many lists stand inside one another at most in what is written. -/
def depth : Shape -> Nat
  | int64 => 0
  | string => 0
  | sequence element => element.depth + 1

/-- Writes what is of a shape. What is of another shape is refused. -/
def serialize (format : Format Nested π ω σ τ) : Shape -> Nested -> π -> Action Nested ω
  | int64, .integer n, place => format.integer place n
  | string, .string s, place => format.string place s
  | sequence element, .sequence items, place =>
      items.serialize (format.list place (element.serialize format))
  | _, _, _ => Action.fail (format.custom "value of another shape")

def deserialize (source : Source ω ι) : Shape -> ι -> Action Nested (Nested × ι)
  | int64, input => do
      let (n, rest) ← Action.ofExcept (source.integer input)
      return (.integer n, rest)
  | string, input => do
      let (s, rest) ← Action.ofExcept (source.string input)
      return (.string s, rest)
  | sequence element, input => do
      let (items, rest) ← Sequence.deserialize source (element.deserialize source) input
      return (.sequence items, rest)

end Shape

end ValueStore
