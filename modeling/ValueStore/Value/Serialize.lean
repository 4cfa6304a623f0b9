import ValueStore.Format
import ValueStore.Value.Basic

/-!
# Handing a value to a format

Scalars go to the format as they are, sequences and dictionaries as its lists and maps.
Functions, channels and other foreign things are refused with a message of their own.
-/

namespace ValueStore

namespace Value

variable {π ω σ τ : Type}

def unencodable (typeName : String) : String :=
  "cannot serialize " ++ typeName ++ " value"

def serializeAt (format : Format Value π ω σ τ) : Nat -> Value -> π -> Action Value ω
  | 0, v, _ => Action.fail (format.custom (unencodable v.typeName))
  | bound + 1, v, place =>
      match v with
      | integer n => format.integer place n
      | float x => format.float place x
      | string s => format.string place s
      | boolean b => format.boolean place b
      | list items => items.serialize (format.list place (serializeAt format bound))
      | map entries =>
          entries.serialize
            (format.map place (serializeAt format bound) (serializeAt format bound))
      | v => Action.fail (format.custom (unencodable v.typeName))

def serialize (format : Format Value π ω σ τ) (v : Value) (place : π) : Action Value ω :=
  serializeAt format v.height v place

end Value

end ValueStore
