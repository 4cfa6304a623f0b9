import ValueStore.Action
import ValueStore.Dictionary.Bucket
import ValueStore.Dictionary.Policy
import ValueStore.Hash.Bytes
import ValueStore.Hash.Fnv

/-!
# Dictionaries

A dictionary keeps its entries in buckets, and the buckets in a search tree under
the hash of their keys. How keys are hashed and compared is given by a keying,
which may refuse either; two keys are the same only if the keying says so, and it
is asked only about keys of equal hash.

Deleting never takes a node out of the tree. It shortens a bucket or leaves a
tombstone, and once enough deletions have been counted it may rebuild the tree
without the tombstones.
-/

namespace ValueStore

/-- Hashing and comparing keys. Comparing takes a stored key first and the key sought second. -/
structure Keying (α κ : Type) where
  hash : κ -> Action α UInt64
  same : κ -> κ -> Action α Bool

namespace Keying

variable {α κ : Type}

/-- The tree key of a key: its hash, read as a signed integer. -/
def nodeKey (keying : Keying α κ) (key : κ) : Action α Int64 := do
  return (← keying.hash key).toInt64

def ofBytes [DecidableEq κ] (bytes : κ -> List UInt8) : Keying α κ where
  hash key := return Fnv.hash (bytes key)
  same stored sought := return stored == sought

def int64 : Keying α Int64 :=
  ofBytes Bytes.ofInt64

def string : Keying α String :=
  ofBytes Bytes.terminated

end Keying

structure Dictionary (κ ν : Type) where
  index : Index (Bucket κ ν)
  /-- The number of live entries. -/
  size : Nat
  /-- The number of deletions since the last look at the tombstones. -/
  deletions : Nat
  policy : Policy

namespace Bucket

variable {α κ ν : Type}

def findOverflow (keying : Keying α κ) (sought : κ) :
    Nat -> List (κ × ν) -> Action α (Option Place)
  | _, [] => return none
  | index, (stored, _) :: rest => do
      if ← keying.same stored sought then
        return some (.overflow index)
      else
        findOverflow keying sought (index + 1) rest

/-- Where the key sought is. Keys are compared in order up to the first that is the same. -/
def find? (keying : Keying α κ) (b : Bucket κ ν) (sought : κ) : Action α (Option Place) := do
  if b.deleted then
    return none
  else if ← keying.same b.key sought then
    return some .primary
  else
    findOverflow keying sought 0 b.overflow

end Bucket

namespace Dictionary

variable {α κ ν : Type}

def withPolicy (policy : Policy) : Dictionary κ ν :=
  { index := .empty, size := 0, deletions := 0, policy := policy }

def empty : Dictionary κ ν :=
  withPolicy .standard

def isEmpty (m : Dictionary κ ν) : Bool :=
  m.size == 0

def bucketCount (m : Dictionary κ ν) : Nat :=
  m.index.size

def tombstones (m : Dictionary κ ν) : Nat :=
  m.index.toList.countP fun node => node.2.deleted

def toList (m : Dictionary κ ν) : List (κ × ν) :=
  m.index.toList.flatMap fun node => node.2.entries

def keys (m : Dictionary κ ν) : List κ :=
  m.toList.map Prod.fst

def values (m : Dictionary κ ν) : List ν :=
  m.toList.map Prod.snd

/-! ## Looking up -/

def lookup? (keying : Keying α κ) (m : Dictionary κ ν) (key : κ) : Action α (Option ν) := do
  let hash ← keying.nodeKey key
  match m.index.get? hash with
  | none => return none
  | some bucket =>
      match ← bucket.find? keying key with
      | none => return none
      | some place => return (bucket.get? place).map Prod.snd

def get (keying : Keying α κ) (m : Dictionary κ ν) (key : κ) : Action α ν := do
  match ← m.lookup? keying key with
  | some value => return value
  | none => Action.fail .keyNotFound

def getD (keying : Keying α κ) (m : Dictionary κ ν) (key : κ) (fallback : ν) : Action α ν := do
  return (← m.lookup? keying key).getD fallback

def contains (keying : Keying α κ) (m : Dictionary κ ν) (key : κ) : Action α Bool := do
  return (← m.lookup? keying key).isSome

/-! ## Adding -/

def put (keying : Keying α κ) (m : Dictionary κ ν) (key : κ) (value : ν) :
    Action α (Dictionary κ ν) := do
  let hash ← keying.nodeKey key
  let found ← match m.index.get? hash with
    | none => pure none
    | some bucket => bucket.find? keying key
  match found with
  | some _ => Action.fail .duplicateKey
  | none =>
      return { m with
        index := m.index.put Bucket.handler hash (.single key value)
        size := m.size + 1 }

def putAll (keying : Keying α κ) (m : Dictionary κ ν) :
    List (κ × ν) -> Action α (Dictionary κ ν)
  | [] => return m
  | (key, value) :: rest => do
      let larger ← m.put keying key value
      larger.putAll keying rest

def ofList (keying : Keying α κ) (entries : List (κ × ν)) : Action α (Dictionary κ ν) :=
  empty.putAll keying entries

/-! ## Deleting -/

/-- Rebuilds the tree without tombstones. Buckets are carried over whole, and no key is hashed. -/
def compact (m : Dictionary κ ν) : Dictionary κ ν :=
  { m with
    index := Index.empty.putAll Bucket.handler
      (m.index.toList.filter fun node => !node.2.deleted)
    deletions := 0 }

/-- Follows the policy after a deletion, and tells what was done if its threshold was passed. -/
def settle (m : Dictionary κ ν) : Dictionary κ ν × Option Event :=
  if m.deletions ≤ m.policy.threshold then
    (m, none)
  else if m.tombstones < m.policy.minimum then
    ({ m with deletions := 0 }, some (.compactionDeferred m.deletions m.tombstones))
  else
    (m.compact, some (.compacted m.deletions m.tombstones m.size))

structure Removal (κ ν : Type) where
  found : Bool
  map : Dictionary κ ν
  /-- What following the policy led to, if its threshold was passed. -/
  event : Option Event

def Removal.absent (m : Dictionary κ ν) : Removal κ ν :=
  { found := false, map := m, event := none }

/-- Deletes a key if it is there, and leaves it to the caller to log what the policy led to. -/
def remove (keying : Keying α κ) (m : Dictionary κ ν) (key : κ) : Action α (Removal κ ν) := do
  let hash ← keying.nodeKey key
  match m.index.get? hash with
  | none => return .absent m
  | some bucket =>
      match ← bucket.find? keying key with
      | none => return .absent m
      | some place =>
          match m.index.modify Bucket.handler hash place with
          | (_, false) => return .absent m
          | (index, true) =>
              let smaller : Dictionary κ ν := { m with
                index := index, size := m.size - 1, deletions := m.deletions + 1 }
              return { found := true, map := smaller.settle.1, event := smaller.settle.2 }

def erase (keying : Keying α κ) (m : Dictionary κ ν) (key : κ) :
    Action α (Bool × Dictionary κ ν) := do
  let removal ← m.remove keying key
  match removal.event with
  | none => return (removal.found, removal.map)
  | some event =>
      Action.log event
      return (removal.found, removal.map)

def delete (keying : Keying α κ) (m : Dictionary κ ν) (key : κ) :
    Action α (Dictionary κ ν) := do
  match ← m.erase keying key with
  | (true, smaller) => return smaller
  | (false, _) => Action.fail .keyNotFound

def deleteAll (keying : Keying α κ) (m : Dictionary κ ν) :
    List κ -> Action α (Dictionary κ ν)
  | [] => return m
  | key :: rest => do
      let smaller ← m.delete keying key
      smaller.deleteAll keying rest

/-! ## Comparing -/

def holdsAll (keying : Keying α κ) (agree : ν -> ν -> Action α Bool) (entries : List (κ × ν))
    (m : Dictionary κ ν) : Action α Bool :=
  Action.allM
    (fun entry => do
      match ← m.lookup? keying entry.1 with
      | none => return false
      | some value => agree entry.2 value)
    entries

def agree (keying : Keying α κ) (agree : ν -> ν -> Action α Bool)
    (left right : Dictionary κ ν) : Action α Bool := do
  if left.size = right.size then
    if ← right.holdsAll keying agree left.toList then
      left.holdsAll keying agree right.toList
    else
      return false
  else
    return false

end Dictionary

end ValueStore
