import ValueStore.Action

/-!
# Cells

The cells that keep joined chains, and the log. A cell is empty until the first
ordered reading of a sequence that names it and has a back chain; that reading
joins the chains, keeps the result and logs one event. A sequence without a back
chain is already in order and never touches its cell.
-/

namespace ValueStore

structure Cells (α : Type) where
  /-- What each cell keeps, by its name. -/
  chains : Array (Option (List α))
  /-- The events logged so far, oldest first. -/
  events : Array Event

namespace Cells

variable {α β : Type}

def empty : Cells α :=
  { chains := #[], events := #[] }

def kept? (cells : Cells α) (cell : CellId) : Option (List α) :=
  (cells.chains[cell]?).join

def allocate (cells : Cells α) : CellId × Cells α :=
  (cells.chains.size, { cells with chains := cells.chains.push none })

def log (cells : Cells α) (event : Event) : Cells α :=
  { cells with events := cells.events.push event }

/-- Answers the elements of a sequence in order, joining its chains if that was not done before. -/
def read (cells : Cells α) (s : Sequence α) : List α × Cells α :=
  if s.back.isEmpty then
    (s.front, cells)
  else
    match cells.kept? s.cell with
    | some elements => (elements, cells)
    | none =>
        (s.toList,
          { chains := cells.chains.setIfInBounds s.cell (some s.toList),
            events := cells.events.push (.joined s.frontLength s.backLength) })

/-- Carries an action out. Cells filled and events logged before a refusal stay. -/
def run : Action α β -> Cells α -> Except Error β × Cells α
  | .done answer, cells => (.ok answer, cells)
  | .fail error, cells => (.error error, cells)
  | .read s next, cells =>
      let (elements, cells) := cells.read s
      run (next elements) cells
  | .fresh next, cells =>
      let (cell, cells) := cells.allocate
      run (next cell) cells
  | .note event next, cells => run next (cells.log event)

theorem run_bind {γ : Type} (x : Action α β) (f : β -> Action α γ) (cells : Cells α) :
    run (x >>= f) cells =
      match run x cells with
      | (.ok b, after) => run (f b) after
      | (.error e, after) => (.error e, after) := by
  change run (x.bind f) cells = _
  induction x generalizing cells with
  | done answer => rfl
  | fail error => rfl
  | read s next ih => exact ih (cells.read s).1 (cells.read s).2
  | fresh next ih => exact ih cells.allocate.1 cells.allocate.2
  | note event next ih => exact ih (cells.log event)

def forgetEvents (cells : Cells α) : Cells α :=
  { cells with events := #[] }

end Cells

end ValueStore
