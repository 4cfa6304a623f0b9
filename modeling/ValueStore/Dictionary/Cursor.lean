import ValueStore.Dictionary.Basic
import ValueStore.Tree.Walk

/-!
# Going through a dictionary

A cursor walks through the tree and stops inside a bucket to yield its entries one
at a time. It counts down from the size of the dictionary. The keys, the values and
the entries of a dictionary are collected by a cursor that is called until it has no
answer any more.
-/

namespace ValueStore

namespace Dictionary

structure Cursor (κ ν : Type) where
  walk : Walk (Bucket κ ν)
  /-- The bucket whose primary entry was yielded last, if any of its entries may be left. -/
  current : Option (Bucket κ ν)
  /-- The index of the next overflowing entry of that bucket. -/
  position : Nat
  remaining : Nat

variable {κ ν : Type}

def cursor (m : Dictionary κ ν) : Cursor κ ν :=
  { walk := .ofIndex m.index, current := none, position := 0, remaining := m.size }

namespace Cursor

def nextBucket? (walk : Walk (Bucket κ ν)) : Option (Bucket κ ν × Walk (Bucket κ ν)) :=
  match _hnext : walk.next? with
  | none => none
  | some ((_, bucket), after) =>
      if bucket.liveCount = 0 then nextBucket? after else some (bucket, after)
termination_by walk.pendingNodes
decreasing_by
  have hnodes := Walk.pendingNodes_of_next? _hnext
  omega

def nextPrimary (cursor : Cursor κ ν) : Option (κ × ν) × Cursor κ ν :=
  match nextBucket? cursor.walk with
  | none => (none, { cursor with walk := { cursor.walk with stack := [] }, current := none })
  | some (bucket, walk) =>
      (some (bucket.key, bucket.value),
        { walk := walk, current := some bucket, position := 0,
          remaining := cursor.remaining - 1 })

def next (cursor : Cursor κ ν) : Option (κ × ν) × Cursor κ ν :=
  match cursor.current with
  | none => cursor.nextPrimary
  | some bucket =>
      match bucket.overflow[cursor.position]? with
      | some entry =>
          (some entry,
            { cursor with position := cursor.position + 1, remaining := cursor.remaining - 1 })
      | none => cursor.nextPrimary

def draw (cursor : Cursor κ ν) : Nat -> List (Option (κ × ν)) × Cursor κ ν
  | 0 => ([], cursor)
  | n + 1 =>
      let (item, cursor) := cursor.next
      let (items, cursor) := cursor.draw n
      (item :: items, cursor)

def length (cursor : Cursor κ ν) : Nat :=
  cursor.remaining

def sizeHint (cursor : Cursor κ ν) : Nat × Option Nat :=
  (cursor.remaining, some cursor.remaining)

/-! ## Calling until there is no answer -/

def overflowLeft (cursor : Cursor κ ν) : Nat :=
  match cursor.current with
  | none => 0
  | some bucket => bucket.overflow.length - cursor.position

theorem pendingNodes_of_nextBucket? {walk after : Walk (Bucket κ ν)} {bucket : Bucket κ ν}
    (hnext : nextBucket? walk = some (bucket, after)) :
    after.pendingNodes < walk.pendingNodes := by
  fun_induction nextBucket? walk with
  | case1 walk hend =>
      cases hnext
  | case2 walk hash dead behind hstep _hdead ih =>
      have hnodes := Walk.pendingNodes_of_next? hstep
      have hlater := ih hnext
      omega
  | case3 walk hash live behind hstep _hlive =>
      cases hnext
      have hnodes := Walk.pendingNodes_of_next? hstep
      omega

theorem pendingNodes_of_nextPrimary {cursor after : Cursor κ ν} {entry : κ × ν}
    (hnext : cursor.nextPrimary = (some entry, after)) :
    after.walk.pendingNodes < cursor.walk.pendingNodes := by
  unfold nextPrimary at hnext
  cases hbucket : nextBucket? cursor.walk with
  | none =>
      rw [hbucket] at hnext
      cases hnext
  | some found =>
      rw [hbucket] at hnext
      cases hnext
      exact pendingNodes_of_nextBucket? hbucket

theorem shrinks_of_next {cursor after : Cursor κ ν} {entry : κ × ν}
    (hnext : cursor.next = (some entry, after)) :
    after.walk.pendingNodes < cursor.walk.pendingNodes ∨
      after.walk.pendingNodes = cursor.walk.pendingNodes ∧
        after.overflowLeft < cursor.overflowLeft := by
  unfold next at hnext
  cases hcurrent : cursor.current with
  | none =>
      rw [hcurrent] at hnext
      exact Or.inl (pendingNodes_of_nextPrimary hnext)
  | some bucket =>
      simp only [hcurrent] at hnext
      cases hentry : bucket.overflow[cursor.position]? with
      | none =>
          rw [hentry] at hnext
          exact Or.inl (pendingNodes_of_nextPrimary hnext)
      | some found =>
          rw [hentry] at hnext
          cases hnext
          rcases List.getElem?_eq_some_iff.mp hentry with ⟨hposition, _hfound⟩
          refine Or.inr ⟨rfl, ?_⟩
          simp only [overflowLeft, hcurrent]
          omega

def drain (cursor : Cursor κ ν) : List (κ × ν) :=
  match _hnext : cursor.next with
  | (none, _) => []
  | (some entry, after) => entry :: after.drain
termination_by (cursor.walk.pendingNodes, cursor.overflowLeft)
decreasing_by exact Prod.lex_def.mpr (shrinks_of_next _hnext)

end Cursor

def collect {α τ : Type} (project : κ × ν -> τ) (m : Dictionary κ ν) :
    Action α (Sequence τ) := do
  return .ofListAt (← Action.freshCell) (m.cursor.drain.map project)

def keySequence {α : Type} (m : Dictionary κ ν) : Action α (Sequence κ) :=
  m.collect Prod.fst

def valueSequence {α : Type} (m : Dictionary κ ν) : Action α (Sequence ν) :=
  m.collect Prod.snd

def entrySequence {α : Type} (m : Dictionary κ ν) : Action α (Sequence (κ × ν)) :=
  m.collect id

end Dictionary

end ValueStore
