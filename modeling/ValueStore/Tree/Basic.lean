/-!
# Search trees with coloured nodes

A binary search tree over 64-bit integer keys whose nodes are red or black. The
colours keep it balanced: no red node has a red child, and every way from the root
to an empty place passes the same number of black nodes.

What happens when a payload meets a key that is already there, and what an edit
does to a payload, is decided by a handler. The tree never removes a node.
-/

namespace ValueStore

inductive Color where
  | red
  | black
  deriving DecidableEq

inductive Tree (β : Type) where
  | leaf
  | node (color : Color) (left : Tree β) (key : Int64) (value : β) (right : Tree β)

/-- What a tree does with payloads; `ε` is the type of edits. -/
structure Handler (β ε : Type) where
  /-- The payload to keep when the second one arrives at the key of the first. -/
  merge : β -> β -> β
  /-- The edited payload, or nothing if the edit does not apply to it. -/
  edit : β -> ε -> Option β

namespace Tree

variable {β ε : Type}

def isRed : Tree β -> Bool
  | node .red _ _ _ _ => true
  | _ => false

def blacken : Tree β -> Tree β
  | leaf => leaf
  | node _ l k v r => node .black l k v r

def count : Tree β -> Nat
  | leaf => 0
  | node _ l _ _ r => l.count + r.count + 1

def get? (key : Int64) : Tree β -> Option β
  | leaf => none
  | node _ l k v r =>
      if key < k then l.get? key
      else if k < key then r.get? key
      else some v

/--
Rebuilds a node whose child may be red with a red child of its own. Under a black node the three
nodes concerned become a red one with two black children; any other node is left as it is.
-/
def balance : Color -> Tree β -> Int64 -> β -> Tree β -> Tree β
  | .black, node .red (node .red a xk xv b) yk yv c, zk, zv, d =>
      node .red (node .black a xk xv b) yk yv (node .black c zk zv d)
  | .black, node .red a xk xv (node .red b yk yv c), zk, zv, d =>
      node .red (node .black a xk xv b) yk yv (node .black c zk zv d)
  | .black, a, xk, xv, node .red b yk yv (node .red c zk zv d) =>
      node .red (node .black a xk xv b) yk yv (node .black c zk zv d)
  | .black, a, xk, xv, node .red (node .red b yk yv c) zk zv d =>
      node .red (node .black a xk xv b) yk yv (node .black c zk zv d)
  | color, l, k, v, r => node color l k v r

/-- Inserts below a root whose colour is still open; also tells whether a node was added. -/
def insert (handler : Handler β ε) (key : Int64) (value : β) : Tree β -> Tree β × Bool
  | leaf => (node .red leaf key value leaf, true)
  | node color l k v r =>
      if key < k then
        let (l', added) := l.insert handler key value
        (balance color l' k v r, added)
      else if k < key then
        let (r', added) := r.insert handler key value
        (balance color l k v r', added)
      else
        (node color l k (handler.merge v value) r, false)

/-- Edits the payload of a key. Nothing comes back if the key is absent or the edit refused. -/
def modify? (handler : Handler β ε) (key : Int64) (edit : ε) : Tree β -> Option (Tree β)
  | leaf => none
  | node color l k v r =>
      if key < k then
        (l.modify? handler key edit).map fun l' => node color l' k v r
      else if k < key then
        (r.modify? handler key edit).map fun r' => node color l k v r'
      else
        (handler.edit v edit).map fun v' => node color l k v' r

def toList : Tree β -> List (Int64 × β)
  | leaf => []
  | node _ l k v r => (k, v) :: (r.toList ++ l.toList)

/-- Shows every node to a visitor: a node first, then what is right of it, then what is left. -/
def visit {σ : Type} (visitor : σ -> Int64 -> β -> σ) : Tree β -> σ -> σ
  | leaf, state => state
  | node _ l k v r, state => l.visit visitor (r.visit visitor (visitor state k v))

end Tree

end ValueStore
