import ValueStore.Dictionary.Basic
import ValueStore.Number.Binary64
import ValueStore.Sequence.Operations
import ValueStore.Value.Handle

/-!
# Values

The values that sequences and dictionaries hold: scalars, sequences and
dictionaries of values to any depth, and handles.

Functions that descend into a value take the elements of a sequence from an
action's answer, so they cannot recurse on the value itself. They recurse on a
bound instead and are called with the height of the value, which is always enough.
-/

namespace ValueStore

inductive Value where
  | integer (n : Int64)
  | float (x : Binary64)
  | string (s : String)
  | boolean (b : Bool)
  | list (items : Sequence Value)
  | map (entries : Dictionary Value Value)
  | function (handle : Handle)
  | channel (handle : Handle)
  | foreign (handle : Handle)

abbrev ValueMap := Dictionary Value Value

namespace Value

def typeName : Value -> String
  | integer _ => "integer"
  | float _ => "float"
  | string _ => "string"
  | boolean _ => "boolean"
  | list _ => "list"
  | map _ => "map"
  | function _ => "function"
  | channel _ => "channel"
  | foreign handle => handle.typeName

def isComparable : Value -> Bool
  | function _ => false
  | channel _ => false
  | foreign handle => handle.comparable
  | _ => true

/-- Whether the outermost kind of a value can be hashed. -/
def isHashable : Value -> Bool
  | integer _ => true
  | float _ => true
  | string _ => true
  | boolean _ => true
  | list _ => true
  | _ => false

mutual

/-- How deep a value is nested. A scalar, a handle and an empty collection have height one. -/
def height : Value -> Nat
  | integer _ => 1
  | float _ => 1
  | string _ => 1
  | boolean _ => 1
  | list items => sequenceHeight items + 1
  | map entries => dictionaryHeight entries + 1
  | function _ => 1
  | channel _ => 1
  | foreign _ => 1

def sequenceHeight : Sequence Value -> Nat
  | ⟨front, _, back, _, _⟩ => max (listHeight front) (listHeight back)

def listHeight : List Value -> Nat
  | [] => 0
  | v :: rest => max v.height (listHeight rest)

def dictionaryHeight : Dictionary Value Value -> Nat
  | ⟨index, _, _, _⟩ => indexHeight index

def indexHeight : Index (Bucket Value Value) -> Nat
  | ⟨root, _⟩ => treeHeight root

def treeHeight : Tree (Bucket Value Value) -> Nat
  | .leaf => 0
  | .node _ l _ bucket r => max (bucketHeight bucket) (max (treeHeight l) (treeHeight r))

def bucketHeight : Bucket Value Value -> Nat
  | ⟨key, value, overflow, _⟩ => max (max key.height value.height) (entriesHeight overflow)

def entriesHeight : List (Value × Value) -> Nat
  | [] => 0
  | entry :: rest => max (entryHeight entry) (entriesHeight rest)

def entryHeight : Value × Value -> Nat
  | (key, value) => max key.height value.height

end

end Value

end ValueStore
