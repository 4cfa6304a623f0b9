import ValueStore.Sequence.Operations

/-!
# Reading what a format has written

A source reads scalars off its input, and of a list it supplies the items one after the
other. It does not read the items itself: it says where one starts, and goes on from
where whoever reads it has left off. A sequence is read by collecting all that is
supplied, and gets a cell of its own.
-/

namespace ValueStore

/-- A list as it is read: where its next item starts, up to its end or to a failure. -/
inductive Supply (ι : Type) where
  /-- There are no more items, and the list is followed by this. -/
  | finished (rest : ι)
  | failed (error : Error)
  /-- An item starts here, and what comes behind it depends on where it ends. -/
  | item (start : ι) (next : ι -> Supply ι)

/-- A source of texts `ω`, of which the `ι` are what is left to be read. -/
structure Source (ω ι : Type) where
  opened : ω -> ι
  integer : ι -> Except Error (Int64 × ι)
  string : ι -> Except Error (String × ι)
  list : ι -> Supply ι
  /-- Nothing more may follow. -/
  closed : ι -> Except Error Unit

variable {α β ω ι : Type}

/-- Reads the items supplied, and answers them behind those collected before. -/
def Supply.collect (read : ι -> Action α (β × ι)) :
    Supply ι -> Array β -> Action α (Array β × ι)
  | finished rest, items => return (items, rest)
  | failed error, _ => Action.fail error
  | item start next, items => do
      let (x, rest) ← read start
      (next rest).collect read (items.push x)

def Sequence.deserialize (source : Source ω ι) (read : ι -> Action α (α × ι)) (input : ι) :
    Action α (Sequence α × ι) := do
  let (elements, rest) ← (source.list input).collect read #[]
  let s ← Sequence.ofList elements.toList
  return (s, rest)

def Source.read (source : Source ω ι) (read : ι -> Action α (β × ι)) (text : ω) :
    Action α β := do
  let (x, rest) ← read (source.opened text)
  Action.ofExcept (source.closed rest)
  return x

end ValueStore
