import ValueStore.Tree.Index

/-!
# Buckets

A bucket is the payload of a tree node: the entries whose keys have the same hash.
One entry is the primary one, the others overflow in the order of their arrival.
A bucket that has lost its last entry stays behind as a tombstone; its primary
entry is then stale and means nothing.
-/

namespace ValueStore

structure Bucket (κ ν : Type) where
  key : κ
  value : ν
  overflow : List (κ × ν)
  deleted : Bool

inductive Place where
  | primary
  | overflow (index : Nat)
  deriving DecidableEq

namespace Bucket

variable {κ ν : Type}

def single (key : κ) (value : ν) : Bucket κ ν :=
  { key := key, value := value, overflow := [], deleted := false }

def entries (b : Bucket κ ν) : List (κ × ν) :=
  if b.deleted then [] else (b.key, b.value) :: b.overflow

def liveCount (b : Bucket κ ν) : Nat :=
  if b.deleted then 0 else b.overflow.length + 1

def get? (b : Bucket κ ν) : Place -> Option (κ × ν)
  | .primary => some (b.key, b.value)
  | .overflow i => b.overflow[i]?

/-- A tombstone gives way to what arrives; a live bucket takes it in at the end. -/
def merge (existing incoming : Bucket κ ν) : Bucket κ ν :=
  if existing.deleted then
    incoming
  else
    { existing with overflow := existing.overflow ++ [(incoming.key, incoming.value)] }

/--
Takes one entry out. The last overflowing entry takes the place of a primary one, and the bucket
becomes a tombstone if there is none.
-/
def remove? (b : Bucket κ ν) (place : Place) : Option (Bucket κ ν) :=
  if b.deleted then
    none
  else
    match place with
    | .primary =>
        match b.overflow.getLast? with
        | none => some { b with deleted := true }
        | some (key, value) =>
            some { key := key, value := value, overflow := b.overflow.dropLast, deleted := false }
    | .overflow i =>
        if i < b.overflow.length then
          some { b with overflow := b.overflow.eraseIdx i }
        else
          none

def handler : Handler (Bucket κ ν) Place :=
  { merge := merge, edit := remove? }

end Bucket

end ValueStore
