import ValueStore.Dictionary.Basic
import ValueStore.Sequence.Operations
import ValueStore.Text.Quoted

/-!
# The text of collections

Sequences in square brackets and dictionaries in braces, given how their elements
are shown. Elements are shown in order, a key before its value.
-/

namespace ValueStore

def Sequence.text {α : Type} (shown : α -> Action α String) (s : Sequence α) :
    Action α String := do
  let elements ← Action.elements s
  return Text.enclosed "[" "]" (← elements.mapM shown)

def Dictionary.text {α κ ν : Type} (shownKey : κ -> Action α String)
    (shownValue : ν -> Action α String) (m : Dictionary κ ν) : Action α String := do
  let entries ← m.toList.mapM fun entry => do
    let key ← shownKey entry.1
    let value ← shownValue entry.2
    return key ++ ": " ++ value
  return Text.enclosed "\x7b" "\x7d" entries

def Index.text {β : Type} (shownValue : β -> String) (index : Index β) : String :=
  Text.enclosed "\x7b" "\x7d"
    (index.toList.map fun entry => toString entry.1.toInt ++ ": " ++ shownValue entry.2)

end ValueStore
