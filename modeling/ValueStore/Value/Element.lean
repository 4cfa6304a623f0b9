import ValueStore.Json.Writer
import ValueStore.Sequence.Shelf
import ValueStore.Value.Equality
import ValueStore.Value.Serialize
import ValueStore.Value.Text

/-!
# Elements of sequences

What integers, strings and values can do as the elements of a sequence. Integers and
strings are compared as they are, and strings are shown without quotes in the plain
form. All are written as JSON.
-/

namespace ValueStore

namespace Sequence.Element

def int64 : Element Int64 (List String) where
  agree left right := return left == right
  display n := return toString n.toInt
  debug n := return toString n.toInt
  format := Json.format.list .value fun n role => Json.format.integer role n

def string : Element String (List String) where
  agree left right := return left == right
  display s := return s
  debug s := return Text.quoted s
  format := Json.format.list .value fun s role => Json.format.string role s

def value : Element Value (List String) where
  agree := Value.agree
  display := Value.display
  debug := Value.debug
  format := Json.format.list .value (Value.serialize Json.format)

end Sequence.Element

end ValueStore
