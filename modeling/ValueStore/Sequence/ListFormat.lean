import ValueStore.Action

/-!
# Handing a sequence to a format

A format that has lists is told how many elements are to come, if that is known, then
each element, and then that there are no more. A sequence declares its length, and only
then are its elements read in order. The first refusal ends it.
-/

namespace ValueStore

/-- How a format writes a list: `σ` is what it keeps on the way and `ω` what comes of it. -/
structure ListFormat (α σ ω : Type) where
  /-- Begins a list, with the number of its elements if that is known. -/
  start : Option Nat -> Action α σ
  element : σ -> α -> Action α σ
  finish : σ -> Action α ω

variable {α σ ω : Type}

def ListFormat.write (format : ListFormat α σ ω) (declared : Option Nat) (elements : List α) :
    Action α ω := do
  let begun ← format.start declared
  let written ← elements.foldlM format.element begun
  format.finish written

def Sequence.serialize (format : ListFormat α σ ω) (s : Sequence α) : Action α ω := do
  let begun ← format.start (some s.length)
  let elements ← Action.elements s
  let written ← elements.foldlM format.element begun
  format.finish written

end ValueStore
