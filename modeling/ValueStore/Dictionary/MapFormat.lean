import ValueStore.Dictionary.Cursor

/-!
# Handing a dictionary to a format

A format that has maps is told how many entries are to come, if that is known, then
each entry, and then that there are no more. A dictionary declares its size and hands
its entries over in the order of a cursor. The first refusal ends it.
-/

namespace ValueStore

/-- How a format writes a map: `σ` is what it keeps on the way and `ω` what comes of it. -/
structure MapFormat (α κ ν σ ω : Type) where
  /-- Begins a map, with the number of its entries if that is known. -/
  start : Option Nat -> Action α σ
  entry : σ -> κ -> ν -> Action α σ
  finish : σ -> Action α ω

namespace MapFormat

variable {α κ ν σ ω : Type}

def write (format : MapFormat α κ ν σ ω) (declared : Option Nat) (entries : List (κ × ν)) :
    Action α ω := do
  let begun ← format.start declared
  let written ← entries.foldlM (fun state entry => format.entry state entry.1 entry.2) begun
  format.finish written

end MapFormat

def Dictionary.serialize {α κ ν σ ω : Type} (format : MapFormat α κ ν σ ω)
    (m : Dictionary κ ν) : Action α ω :=
  format.write (some m.size) m.cursor.drain

end ValueStore
