import ValueStore.Action

/-!
# Operations on sequences

Prepending and appending touch one chain only, and reversing exchanges the two.
Each of them answers a sequence with a cell of its own; so does `rest`. The
elements are read in order only where an operation cannot do without: the first
element of a sequence without a front chain, what lies beyond it, and anything
that visits all elements. The last element is at hand as soon as there is a back
chain, and else is the last of the front chain.
-/

namespace ValueStore

namespace Sequence

variable {α : Type}

/-! ## Building -/

def empty : Action α (Sequence α) := do
  return emptyAt (← Action.freshCell)

def ofList (elements : List α) : Action α (Sequence α) := do
  return ofListAt (← Action.freshCell) elements

/-- Puts elements in front, so that the result starts with them in the order given. -/
def prepend (s : Sequence α) (elements : List α) : Action α (Sequence α) := do
  let cell ← Action.freshCell
  return { s with
    front := elements ++ s.front
    frontLength := s.frontLength + elements.length
    cell := cell }

def append (s : Sequence α) (elements : List α) : Action α (Sequence α) := do
  let cell ← Action.freshCell
  return { s with
    back := elements.reverse ++ s.back
    backLength := s.backLength + elements.length
    cell := cell }

def reverse (s : Sequence α) : Action α (Sequence α) := do
  let cell ← Action.freshCell
  return { front := s.back, frontLength := s.backLength,
           back := s.front, backLength := s.frontLength, cell := cell }

/-- Puts the elements of whole sequences in front, the first of the list being the innermost. -/
def prependEach (s : Sequence α) : List (Sequence α) -> Action α (Sequence α)
  | [] => return s
  | part :: parts => do
      let elements ← Action.elements part
      let joined ← s.prepend elements
      joined.prependEach parts

/--
Joins a sequence and the ones after it. Empty ones are left out. The last of those left is
taken as it is, cell included; the elements of the others are put in front of it, the
nearest first.
-/
def concat (s : Sequence α) (others : List (Sequence α)) : Action α (Sequence α) :=
  match ((s :: others).filter fun part => !part.isEmpty).reverse with
  | [] => empty
  | final :: earlier => final.prependEach earlier

/-! ## Taking apart -/

def head (s : Sequence α) : Action α α :=
  match s.front with
  | x :: _ => return x
  | [] => do
      match ← Action.elements s with
      | x :: _ => return x
      | [] => Action.fail (.emptyCollection .head)

def last (s : Sequence α) : Action α α :=
  match s.back with
  | x :: _ => return x
  | [] =>
      match s.front.getLast? with
      | some x => return x
      | none => Action.fail (.emptyCollection .last)

def rest (s : Sequence α) : Action α (Sequence α) :=
  match s.front with
  | _ :: front => do
      let cell ← Action.freshCell
      return { s with front := front, frontLength := s.frontLength - 1, cell := cell }
  | [] => do
      match ← Action.elements s with
      | _ :: front =>
          let cell ← Action.freshCell
          return { front := front, frontLength := s.length - 1,
                   back := [], backLength := 0, cell := cell }
      | [] => Action.fail (.emptyCollection .rest)

def drop (s : Sequence α) : Nat -> Action α (Sequence α)
  | 0 => return s
  | n + 1 => do
      let shorter ← s.rest
      shorter.drop n

def get? (s : Sequence α) (index : Nat) : Action α (Option α) := do
  return (← Action.elements s)[index]?

/-! ## Comparing -/

/--
Whether two sequences agree position by position. Sequences of different lengths do not,
and their elements are not looked at. Otherwise the first position without agreement decides.
-/
def agree (agree : α -> α -> Action α Bool) (left right : Sequence α) : Action α Bool :=
  if left.length = right.length then do
    let ls ← Action.elements left
    let rs ← Action.elements right
    Action.allM (fun pair => agree pair.1 pair.2) (ls.zip rs)
  else
    return false

/-- As `agree`, but elements that cannot be compared count as different. -/
def same (agree : α -> α -> Action α Bool) (left right : Sequence α) : Action α Bool :=
  left.agree (fun l r => (agree l r).recover fun _ => return false) right

end Sequence

end ValueStore
