import ValueStore.Error
import ValueStore.Sequence.Basic

/-!
# Actions

Operations of the store are written as actions. An action may ask for the
elements of a sequence in order, ask for the name of a fresh cell, or note an
event, and it ends with an answer or a refusal. What asking costs, and what is
logged on the way, is left to whoever carries the action out.

`Action.eval` is the plain meaning: every sequence answers with its own elements.
`ValueStore.Cells` carries actions out against stored cells and keeps a log.
-/

namespace ValueStore

inductive Event where
  /-- A sequence's two chains, of these lengths, were joined for the first time. -/
  | joined (frontLength backLength : Nat)
  /-- Enough deletions for a look at the tombstones, which were too few to rebuild for. -/
  | compactionDeferred (deletions tombstones : Nat)
  /-- A rebuild dropped the tombstones and kept the live entries. -/
  | compacted (deletions tombstones live : Nat)
  deriving DecidableEq

/-- A computation over sequences of `α` that ends with a `β` or a refusal. -/
inductive Action (α β : Type) where
  | done (answer : β)
  | fail (error : Error)
  | read (s : Sequence α) (next : List α -> Action α β)
  | fresh (next : CellId -> Action α β)
  | note (event : Event) (next : Action α β)

namespace Action

variable {α β γ : Type}

protected def bind : Action α β -> (β -> Action α γ) -> Action α γ
  | done answer, f => f answer
  | fail error, _ => fail error
  | read s next, f => read s fun elements => (next elements).bind f
  | fresh next, f => fresh fun cell => (next cell).bind f
  | note event next, f => note event (next.bind f)

instance : Monad (Action α) where
  pure := done
  bind := Action.bind

def recover : Action α β -> (Error -> Action α β) -> Action α β
  | done answer, _ => done answer
  | fail error, onError => onError error
  | read s next, onError => read s fun elements => (next elements).recover onError
  | fresh next, onError => fresh fun cell => (next cell).recover onError
  | note event next, onError => note event (next.recover onError)

/-- The answer of an action when every sequence answers with its own elements. -/
def eval : Action α β -> Except Error β
  | done answer => .ok answer
  | fail error => .error error
  | read s next => (next s.toList).eval
  | fresh next => (next 0).eval
  | note _ next => next.eval

/-- The events an action notes by itself, when every sequence answers with its own elements. -/
def notes : Action α β -> List Event
  | done _ => []
  | fail _ => []
  | read s next => (next s.toList).notes
  | fresh next => (next 0).notes
  | note event next => event :: next.notes

def elements (s : Sequence α) : Action α (List α) :=
  read s done

/-- The name of a cell that no sequence has yet. -/
def freshCell : Action α CellId :=
  fresh done

def log (event : Event) : Action α Unit :=
  note event (done ())

def ofExcept : Except Error β -> Action α β
  | .ok answer => done answer
  | .error error => fail error

def allM (test : β -> Action α Bool) : List β -> Action α Bool
  | [] => done true
  | x :: rest => do
      if ← test x then
        allM test rest
      else
        done false

theorem bind_done (x : Action α β) : x.bind done = x := by
  induction x with
  | done answer => rfl
  | fail error => rfl
  | read s next ih => exact congrArg (read s) (funext ih)
  | fresh next ih => exact congrArg fresh (funext ih)
  | note event next ih => exact congrArg (note event) ih

theorem bind_bind {δ : Type} (x : Action α β) (f : β -> Action α γ) (g : γ -> Action α δ) :
    (x.bind f).bind g = x.bind fun b => (f b).bind g := by
  induction x with
  | done answer => rfl
  | fail error => rfl
  | read s next ih => exact congrArg (read s) (funext ih)
  | fresh next ih => exact congrArg fresh (funext ih)
  | note event next ih => exact congrArg (note event) ih

instance : LawfulMonad (Action α) :=
  LawfulMonad.mk' (Action α) bind_done (fun _ _ => rfl) bind_bind

@[simp] theorem eval_pure (b : β) : (pure b : Action α β).eval = .ok b := rfl

@[simp] theorem eval_done (b : β) : (done b : Action α β).eval = .ok b := rfl

@[simp] theorem eval_elements (s : Sequence α) : (elements s).eval = .ok s.toList := rfl

@[simp] theorem eval_bind (x : Action α β) (f : β -> Action α γ) :
    (x >>= f).eval = x.eval >>= fun b => (f b).eval := by
  change (x.bind f).eval = _
  induction x with
  | done answer => rfl
  | fail error => rfl
  | read s next ih => exact ih s.toList
  | fresh next ih => exact ih 0
  | note event next ih => exact ih

theorem eval_recover (x : Action α β) (onError : Error -> Action α β) :
    (x.recover onError).eval =
      match x.eval with
      | .ok b => .ok b
      | .error e => (onError e).eval := by
  induction x with
  | done answer => rfl
  | fail error => rfl
  | read s next ih => exact ih s.toList
  | fresh next ih => exact ih 0
  | note event next ih => exact ih

end Action

end ValueStore
