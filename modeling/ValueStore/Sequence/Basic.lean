/-!
# Sequences

A sequence is stored as two chains. The front chain holds its elements in order
and grows by prepending; the back chain holds them in reverse order and grows by
appending. The sequence meant is the front chain followed by the reversed back
chain.

Each sequence also names a cell. The first time its elements are wanted in order
the two chains are joined and the result is kept under that name, so that later
readings, also of copies that share the cell, find it ready.
-/

namespace ValueStore

/-- The name of the cell that keeps a sequence's elements in order. -/
abbrev CellId := Nat

structure Sequence (α : Type) where
  front : List α
  frontLength : Nat
  back : List α
  backLength : Nat
  cell : CellId

namespace Sequence

variable {α : Type}

def toList (s : Sequence α) : List α :=
  s.front ++ s.back.reverse

def length (s : Sequence α) : Nat :=
  s.frontLength + s.backLength

def isEmpty (s : Sequence α) : Bool :=
  s.front.isEmpty && s.back.isEmpty

/-- The stored lengths are the lengths of the chains. -/
def Counted (s : Sequence α) : Prop :=
  s.frontLength = s.front.length ∧ s.backLength = s.back.length

def emptyAt (cell : CellId) : Sequence α :=
  { front := [], frontLength := 0, back := [], backLength := 0, cell := cell }

def ofListAt (cell : CellId) (elements : List α) : Sequence α :=
  { front := elements, frontLength := elements.length,
    back := [], backLength := 0, cell := cell }

theorem length_eq_length_toList {s : Sequence α} (hcounted : s.Counted) :
    s.length = s.toList.length := by
  simp [length, toList, hcounted.1, hcounted.2]

theorem isEmpty_eq_isEmpty_toList (s : Sequence α) :
    s.isEmpty = s.toList.isEmpty := by
  cases hfront : s.front with
  | nil =>
      cases hback : s.back with
      | nil =>
          simp [isEmpty, toList, hfront, hback]
      | cons x rest =>
          simp [isEmpty, toList, hfront, hback]
  | cons x rest =>
      simp [isEmpty, toList, hfront]

theorem toList_ofListAt (cell : CellId) (elements : List α) :
    (ofListAt cell elements).toList = elements := by
  simp [ofListAt, toList]

theorem counted_ofListAt (cell : CellId) (elements : List α) :
    (ofListAt cell elements).Counted := by
  simp [ofListAt, Counted]

end Sequence

end ValueStore
