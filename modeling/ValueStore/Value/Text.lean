import ValueStore.Number.Style
import ValueStore.Text.Collection
import ValueStore.Value.Basic

/-!
# The text of values

Two forms, both for people to read: a plain one, and one that names the kind of each
value.
-/

namespace ValueStore

namespace Value

/--
Numbers from a ten-thousandth to below ten to the sixteenth are written without an exponent, and
of two equally near decimals the larger one is taken.
-/
def floatStyle : Number.Style where
  plainFrom := -4
  plainBelow := 16
  plusSign := ""
  tie := .toLarger
  nan := "NaN"
  infinity := "inf"
  negativeInfinity := "-inf"

def displayAt : Nat -> Value -> Action Value String
  | 0, _ => return ""
  | bound + 1, v =>
      match v with
      | integer n => return toString n.toInt
      | float x => return floatStyle.render x
      | string s => return Text.quoted s
      | boolean b => return toString b
      | list items => items.text (displayAt bound)
      | map entries => entries.text (displayAt bound) (displayAt bound)
      | function handle => return handle.display v.typeName
      | channel handle => return handle.display v.typeName
      | foreign handle => return handle.display v.typeName

def display (v : Value) : Action Value String :=
  v.displayAt v.height

def labelled (label text : String) : String :=
  label ++ "(" ++ text ++ ")"

def debugAt : Nat -> Value -> Action Value String
  | 0, _ => return ""
  | bound + 1, v =>
      match v with
      | integer n => return labelled "Integer" (toString n.toInt)
      | float x => return labelled "Float" (floatStyle.render x)
      | string s => return labelled "String" (Text.quoted s)
      | boolean b => return labelled "Boolean" (toString b)
      | list items => do return labelled "List" (← items.text (debugAt bound))
      | map entries => do
          return labelled "Map" (← entries.text (debugAt bound) (debugAt bound))
      | function handle => return labelled "Function" handle.debug
      | channel handle => return labelled "Channel" handle.debug
      | foreign handle => return labelled "Opaque" handle.debug

def debug (v : Value) : Action Value String :=
  v.debugAt v.height

end Value

end ValueStore
