import ValueStore.Dictionary.MapFormat
import ValueStore.Number.Binary64
import ValueStore.Sequence.ListFormat

/-!
# Formats

A format writes scalars, lists and maps at a place of its own. What stands in a list or a
map is not handed to it as such, but as something that can be written at any place the
format chooses. An action that writes may read sequences on the way.
-/

namespace ValueStore

/--
A format: `π` are the places it writes at, `ω` is what comes of writing, and `σ` and `τ` are what
it keeps of a list and of a map on the way.
-/
structure Format (α π ω σ τ : Type) where
  integer : π -> Int64 -> Action α ω
  float : π -> Binary64 -> Action α ω
  string : π -> String -> Action α ω
  boolean : π -> Bool -> Action α ω
  startList : π -> Option Nat -> Action α σ
  element : σ -> (π -> Action α ω) -> Action α σ
  finishList : σ -> Action α ω
  startMap : π -> Option Nat -> Action α τ
  entry : τ -> (π -> Action α ω) -> (π -> Action α ω) -> Action α τ
  finishMap : τ -> Action α ω
  /-- The refusal for a reason that is not the format's own. -/
  custom : String -> Error

namespace Format

variable {α κ ν π ω σ τ : Type}

def list (format : Format α π ω σ τ) (place : π) (write : α -> π -> Action α ω) :
    ListFormat α σ ω where
  start := format.startList place
  element state x := format.element state (write x)
  finish := format.finishList

def map (format : Format α π ω σ τ) (place : π) (writeKey : κ -> π -> Action α ω)
    (writeValue : ν -> π -> Action α ω) :
    MapFormat α κ ν τ ω where
  start := format.startMap place
  entry state key value := format.entry state (writeKey key) (writeValue value)
  finish := format.finishMap

end Format

end ValueStore
