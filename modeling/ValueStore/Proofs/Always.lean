import ValueStore.Proofs.Cells

/-!
# What holds whatever sequences answer

A cell may keep anything, so a sequence that is read may answer with anything. What an
action notes and how it ends can often be told all the same: what holds for every answer
to every reading holds for every run against cells.

The log is read at the level of maintenance. That the chains of a sequence were joined is
too fine for it; what is left is what was done about tombstones.
-/

namespace ValueStore

variable {α β γ : Type}

/-- The event is about tombstones, not about a sequence that was put in order. -/
def Event.isMaintenance : Event -> Bool
  | .joined _ _ => false
  | .compactionDeferred _ _ => true
  | .compacted _ _ _ => true

namespace Action

/-- Whatever the sequences read answer, the events noted and the outcome are as told. -/
def Always : Action α β -> (List Event -> Except Error β -> Prop) -> Prop
  | done answer, P => P [] (.ok answer)
  | fail error, P => P [] (.error error)
  | read _ next, P => forall elements, (next elements).Always P
  | fresh next, P => forall cell, (next cell).Always P
  | note event next, P => next.Always fun events outcome => P (event :: events) outcome

theorem Always.mono {x : Action α β} {P Q : List Event -> Except Error β -> Prop}
    (hx : x.Always P) (hPQ : forall events outcome, P events outcome -> Q events outcome) :
    x.Always Q := by
  induction x generalizing P Q with
  | done answer =>
      exact hPQ _ _ hx
  | fail error =>
      exact hPQ _ _ hx
  | read s next ih =>
      exact fun elements => ih elements (hx elements) hPQ
  | fresh next ih =>
      exact fun cell => ih cell (hx cell) hPQ
  | note event next ih =>
      exact ih hx fun events outcome => hPQ (event :: events) outcome

theorem always_of_forall (x : Action α β) {P : List Event -> Except Error β -> Prop}
    (hP : forall events outcome, P events outcome) :
    x.Always P := by
  induction x generalizing P with
  | done answer =>
      exact hP _ _
  | fail error =>
      exact hP _ _
  | read s next ih =>
      exact fun elements => ih elements hP
  | fresh next ih =>
      exact fun cell => ih cell hP
  | note event next ih =>
      exact ih fun events outcome => hP (event :: events) outcome

theorem Always.bind {x : Action α β} {f : β -> Action α γ}
    {P : List Event -> Except Error β -> Prop} {Q : List Event -> Except Error γ -> Prop}
    (hx : x.Always P)
    (hf : forall events b, P events (.ok b) ->
      (f b).Always fun later outcome => Q (events ++ later) outcome)
    (herror : forall events error, P events (.error error) -> Q events (.error error)) :
    (x >>= f).Always Q := by
  change (x.bind f).Always Q
  induction x generalizing P Q with
  | done answer =>
      exact hf [] answer hx
  | fail error =>
      exact herror [] error hx
  | read s next ih =>
      exact fun elements => ih elements (hx elements) hf herror
  | fresh next ih =>
      exact fun cell => ih cell (hx cell) hf herror
  | note event next ih =>
      exact ih hx (fun events => hf (event :: events)) fun events => herror (event :: events)

theorem always_bind (x : Action α β) {f : β -> Action α γ} {P : Except Error γ -> Prop}
    (hf : forall b, (f b).Always fun _ outcome => P outcome)
    (herror : forall error, P (.error error)) :
    (x >>= f).Always fun _ outcome => P outcome :=
  Always.bind (x.always_of_forall fun _ _ => trivial) (fun _ b _ => hf b)
    fun _ error _ => herror error

theorem Always.bind_congr {x : Action α β} {f g : β -> Action α γ}
    (hx : x.Always fun _ outcome => forall b, outcome = .ok b -> f b = g b) :
    x >>= f = x >>= g := by
  change x.bind f = x.bind g
  induction x with
  | done answer =>
      exact hx answer rfl
  | fail error =>
      rfl
  | read s next ih =>
      exact congrArg (read s) (funext fun elements => ih elements (hx elements))
  | fresh next ih =>
      exact congrArg fresh (funext fun cell => ih cell (hx cell))
  | note event next ih =>
      exact congrArg (note event) (ih hx)

theorem Always.recover {x : Action α β} {onError : Error -> Action α β}
    {P Q : List Event -> Except Error β -> Prop} (hx : x.Always P)
    (hok : forall events b, P events (.ok b) -> Q events (.ok b))
    (herror : forall events error, P events (.error error) ->
      (onError error).Always fun later outcome => Q (events ++ later) outcome) :
    (x.recover onError).Always Q := by
  induction x generalizing P Q with
  | done answer =>
      exact hok [] answer hx
  | fail error =>
      exact herror [] error hx
  | read s next ih =>
      exact fun elements => ih elements (hx elements) hok herror
  | fresh next ih =>
      exact fun cell => ih cell (hx cell) hok herror
  | note event next ih =>
      exact ih hx (fun events => hok (event :: events)) fun events => herror (event :: events)

end Action

namespace Cells

def maintenance (cells : Cells α) : List Event :=
  cells.events.toList.filter Event.isMaintenance

theorem maintenance_log (cells : Cells α) (event : Event) :
    (cells.log event).maintenance =
      cells.maintenance ++ [event].filter Event.isMaintenance := by
  simp [maintenance, log]

theorem maintenance_read (cells : Cells α) (s : Sequence α) :
    (cells.read s).2.maintenance = cells.maintenance := by
  unfold read
  split
  · rfl
  · split
    · rfl
    · simp [maintenance, Event.isMaintenance]

/-- What holds whatever sequences answer holds of every run, and what is noted is logged. -/
theorem run_always {x : Action α β} {P : List Event -> Except Error β -> Prop}
    (hx : x.Always P) (cells : Cells α) :
    exists events, P events (run x cells).1 ∧
      (run x cells).2.maintenance = cells.maintenance ++ events.filter Event.isMaintenance := by
  induction x generalizing cells P with
  | done answer =>
      exact ⟨[], hx, (List.append_nil _).symm⟩
  | fail error =>
      exact ⟨[], hx, (List.append_nil _).symm⟩
  | read s next ih =>
      rcases ih (cells.read s).1 (hx (cells.read s).1) (cells.read s).2 with ⟨events, hP, hlog⟩
      exact ⟨events, hP, hlog.trans (by rw [maintenance_read])⟩
  | fresh next ih =>
      exact ih cells.allocate.1 (hx cells.allocate.1) cells.allocate.2
  | note event next ih =>
      rcases ih hx (cells.log event) with ⟨events, hP, hlog⟩
      refine ⟨event :: events, hP, hlog.trans ?_⟩
      rw [maintenance_log, List.append_assoc, ← List.filter_append, List.singleton_append]

end Cells

namespace Action

/-! ## Actions that note nothing about tombstones -/

def Quiet (x : Action α β) : Prop :=
  x.Always fun events _ => events.filter Event.isMaintenance = []

theorem quiet_done (answer : β) :
    (done answer : Action α β).Quiet :=
  rfl

end Action

end ValueStore
