import ValueStore.Tree.Index

/-!
# Checking a tree

One pass over a tree that checks the order of its keys and the rules of its
colours, and answers the number of black nodes on every way down if all of them
hold.
-/

namespace ValueStore

namespace Tree

variable {β : Type}

/-- Whether a key lies strictly between two bounds, each of which may be missing. -/
def within (lower upper : Option Int64) (key : Int64) : Bool :=
  lower.all (· < key) && upper.all (key < ·)

/-- The common number of black nodes on the ways down, if the subtree keeps all rules. -/
def checkedHeight? (lower upper : Option Int64) : Tree β -> Option Nat
  | leaf => some 0
  | node color l k _ r =>
      if !within lower upper k then
        none
      else if color = .red ∧ (l.isRed ∨ r.isRed) then
        none
      else
        match l.checkedHeight? lower (some k), r.checkedHeight? (some k) upper with
        | some lh, some rh =>
            if lh = rh then some (if color = .black then lh + 1 else lh) else none
        | _, _ => none

/-- The black height of a tree with a root that is not red and that keeps all rules. -/
def blackHeight? (t : Tree β) : Option Nat :=
  if t.isRed then none else t.checkedHeight? none none

end Tree

namespace Index

def blackHeight? {β : Type} (index : Index β) : Option Nat :=
  index.root.blackHeight?

end Index

end ValueStore
