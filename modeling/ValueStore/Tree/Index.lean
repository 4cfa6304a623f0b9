import ValueStore.Tree.Basic

/-!
# Counted search trees

An index is a search tree with a black root, together with the number of its
nodes. Two handlers are at hand: one that keeps the newest payload, and one that
adds integers up.
-/

namespace ValueStore

structure Index (β : Type) where
  root : Tree β
  size : Nat

namespace Index

variable {β ε : Type}

def empty : Index β :=
  { root := .leaf, size := 0 }

def isEmpty (index : Index β) : Bool :=
  index.size == 0

def get? (index : Index β) (key : Int64) : Option β :=
  index.root.get? key

def contains (index : Index β) (key : Int64) : Bool :=
  (index.get? key).isSome

def put (handler : Handler β ε) (index : Index β) (key : Int64) (value : β) : Index β :=
  let (root, added) := index.root.insert handler key value
  { root := root.blacken, size := if added then index.size + 1 else index.size }

def putAll (handler : Handler β ε) (index : Index β) (entries : List (Int64 × β)) : Index β :=
  entries.foldl (fun index entry => index.put handler entry.1 entry.2) index

def modify (handler : Handler β ε) (index : Index β) (key : Int64) (edit : ε) :
    Index β × Bool :=
  match index.root.modify? handler key edit with
  | some root => ({ index with root := root }, true)
  | none => (index, false)

def toList (index : Index β) : List (Int64 × β) :=
  index.root.toList

def visitAll {σ : Type} (index : Index β) (visitor : σ -> Int64 -> β -> σ) (state : σ) : σ :=
  index.root.visit visitor state

end Index

namespace Handler

/-- The newest payload replaces the one before, and an edit is the new payload. -/
def replace (β : Type) : Handler β β where
  merge _ incoming := incoming
  edit _ incoming := some incoming

/-- Payloads are added up modulo `2 ^ 64`. Adding zero is no edit. -/
def sum : Handler Int64 Int64 where
  merge existing incoming := existing + incoming
  edit existing amount := if amount = 0 then none else some (existing + amount)

end Handler

end ValueStore
