import ValueStore.Tree.Index

/-!
# Walking through an index

A walk keeps a stack of the subtrees still to be visited. It yields the nodes one
at a time in the order of `Tree.toList`, and counts down from the size of the index.
-/

namespace ValueStore

structure Walk (β : Type) where
  stack : List (Tree β)
  remaining : Nat

namespace Walk

variable {β : Type}

def push (t : Tree β) (stack : List (Tree β)) : List (Tree β) :=
  match t with
  | .leaf => stack
  | t => t :: stack

def ofIndex (index : Index β) : Walk β :=
  { stack := push index.root [], remaining := index.size }

/-- The next key and payload and the walk behind them. The right subtree comes before the left. -/
def next? (walk : Walk β) : Option ((Int64 × β) × Walk β) :=
  match walk.stack with
  | .node _ l k v r :: stack =>
      some ((k, v), { stack := push r (push l stack), remaining := walk.remaining - 1 })
  | _ => none

def length (walk : Walk β) : Nat :=
  walk.remaining

def sizeHint (walk : Walk β) : Nat × Option Nat :=
  (walk.remaining, some walk.remaining)

def pendingNodes (walk : Walk β) : Nat :=
  walk.stack.foldr (fun t pending => t.count + pending) 0

def draw (walk : Walk β) : Nat -> List (Option (Int64 × β)) × Walk β
  | 0 => ([], walk)
  | n + 1 =>
      match walk.next? with
      | none => (List.replicate (n + 1) none, walk)
      | some (item, walk) =>
          let (items, walk) := walk.draw n
          (some item :: items, walk)

theorem pendingNodes_push (t : Tree β) (stack : List (Tree β)) (remaining : Nat) :
    pendingNodes ⟨push t stack, remaining⟩ = t.count + pendingNodes ⟨stack, remaining⟩ := by
  cases t with
  | leaf =>
      simp [push, pendingNodes, Tree.count]
  | node color l k v r =>
      simp [push, pendingNodes]

theorem pendingNodes_of_next? {walk after : Walk β} {item : Int64 × β}
    (hnext : walk.next? = some (item, after)) :
    after.pendingNodes + 1 = walk.pendingNodes := by
  rcases walk with ⟨stack, remaining⟩
  cases stack with
  | nil =>
      cases hnext
  | cons t stack =>
      cases t with
      | leaf =>
          cases hnext
      | node color l k v r =>
          cases hnext
          rw [pendingNodes_push, pendingNodes_push]
          simp only [pendingNodes, List.foldr_cons, Tree.count]
          omega

end Walk

end ValueStore
