import ValueStore.Value.Hash

/-!
# Equality of values

Values of different kinds differ, and values of the same kind are compared by
content. Functions, channels and handles without identity equality cannot be
compared with anything; asking for that is an error, which ends the comparison
unless a difference was found before.
-/

namespace ValueStore

namespace Value

/-- Whether two values of at most the given height are equal. -/
def agreeAt : Nat -> Value -> Value -> Action Value Bool
  | 0, left, right => Action.fail (.incomparable left.typeName right.typeName)
  | bound + 1, left, right =>
      let differ : Action Value Bool :=
        if left.isComparable && right.isComparable then
          return false
        else
          Action.fail (.incomparable left.typeName right.typeName)
      match left, right with
      | integer m, integer n => return m == n
      | float x, float y => return x.equal y
      | string s, string t => return s == t
      | boolean a, boolean b => return a == b
      | list xs, list ys => xs.agree (agreeAt bound) ys
      | map a, map b =>
          a.agree { hash := hash, same := agreeAt bound } (agreeAt bound) b
      | foreign g, foreign h =>
          if g.comparable && h.comparable then
            return g.typeName == h.typeName && g.identity == h.identity
          else
            differ
      | _, _ => differ

def agree (left right : Value) : Action Value Bool :=
  agreeAt (max left.height right.height) left right

def same (left right : Value) : Action Value Bool :=
  (left.agree right).recover fun _ => return false

def keying : Keying Value Value :=
  { hash := hash, same := agree }

/-! ## Other ways to hash values -/

def identityKeying : Keying Value Value where
  hash
    | integer n => return n.toUInt64
    | key => key.hash
  same := agree

/-- Hashes are taken modulo a number of buckets; integers stand for themselves. -/
def bucketKeying (buckets : Int) : Keying Value Value where
  hash
    | integer n => return UInt64.ofInt (n.toInt % buckets)
    | key => do return UInt64.ofNat ((← key.hash).toNat % buckets.toNat)
  same := agree

/-- All keys have the same hash, also those that have none by themselves. -/
def constantKeying (hash : UInt64) : Keying Value Value where
  hash _ := return hash
  same := agree

end Value

end ValueStore
