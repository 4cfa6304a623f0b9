import ValueStore.Value.Basic

/-!
# Hashing values

A value that can be hashed is written as a byte string, and the hash of that is the
hash of the value. The first byte tells the kind. A list is written as its length
and the hashes of its elements in order, so it is refused if one of them is.
-/

namespace ValueStore

namespace Value

/--
The bytes that stand for a value of at most the given height. Either zero is written as the
positive one, since the two are equal.
-/
def encodingAt : Nat -> Value -> Action Value (List UInt8)
  | 0, v => Action.fail (.unhashableKey v.typeName)
  | bound + 1, v =>
      match v with
      | integer n => return 0 :: Bytes.ofInt64 n
      | float x => return 1 :: Bytes.ofWord x.normalizeZero.bits
      | string s => return 2 :: (Bytes.ofLength (Bytes.utf8 s).length ++ Bytes.utf8 s)
      | boolean b => return 3 :: Bytes.ofBool b
      | list items => do
          let elements ← Action.elements items
          let hashes ← elements.mapM fun element => do
            return Fnv.hash (← encodingAt bound element)
          return 4 :: (Bytes.ofLength items.length ++ hashes.flatMap Bytes.ofWord)
      | v => Action.fail (.unhashableKey v.typeName)

def encoding (v : Value) : Action Value (List UInt8) :=
  v.encodingAt v.height

def hash (v : Value) : Action Value UInt64 := do
  return Fnv.hash (← v.encoding)

end Value

end ValueStore
