import ValueStore.Sequence.Shelf

/-!
# Shelves and outlines

An outline writes down, in the order in which they are made, the lists that the
versions on a shelf stand for: no chains, no cells, no lengths kept aside. Shelves and
outlines are taken through the same steps, one after the other, and a refused step
leaves either as it was.
-/

namespace ValueStore

namespace Sequence

variable {α σ : Type}

namespace Step

def elements : Step α -> List α
  | ofList elements => elements
  | prepend elements => elements
  | append elements => elements
  | _ => []

def asksElements : Step α -> Bool
  | agree _ => true
  | same _ => true
  | display => true
  | debug => true
  | serialize => true
  | _ => false

end Step

namespace Shelf

def attempt (element : Element α σ) (shelf : Shelf α) (number : Nat) (step : Step α) :
    Action α (Except Error (Answer α) × Shelf α) :=
  (do let (answer, shelf) ← shelf.step element number step
      return (Except.ok answer, shelf)).recover fun error => return (Except.error error, shelf)

def attemptAll (element : Element α σ) (shelf : Shelf α) :
    List (Nat × Step α) -> Action α (List (Except Error (Answer α)) × Shelf α)
  | [] => return ([], shelf)
  | (number, step) :: rest => do
      let (answer, shelf) ← shelf.attempt element number step
      let (answers, shelf) ← shelf.attemptAll element rest
      return (answer :: answers, shelf)

def run (element : Element α σ) (steps : List (Nat × Step α)) :
    Action α (List (Except Error (Answer α)) × Shelf α) := do
  (← start).attemptAll element steps

end Shelf

/-- The lists that versions stand for, by the numbers of the versions. -/
abbrev Outline (α : Type) := List (List α)

namespace Outline

inductive Answer (α : Type) where
  | version (number : Nat) (xs : List α)
  | element (x : α)
  | element? (x : Option α)
  | elements (xs : List α)
  | drawn (items : List (Option α)) (left : Nat) (hint : Nat × Option Nat)
  | count (n : Nat)
  | truth (b : Bool)
  | text (s : String)
  deriving DecidableEq

def start : Outline α :=
  [[]]

def version (outline : Outline α) (number : Nat) : List α :=
  outline.getD number []

def push (outline : Outline α) (xs : List α) : Answer α × Outline α :=
  (.version outline.length xs, outline ++ [xs])

def found (access : Access) {β : Type} : Option β -> Except Error β
  | some b => .ok b
  | none => .error (.emptyCollection access)

/-- A list without its first elements, of which there must be as many as are to go. -/
def dropped (n : Nat) (xs : List α) : Except Error (List α) :=
  if n ≤ xs.length then return xs.drop n else .error (.emptyCollection .rest)

def agree (f : α -> α -> Action α Bool) (xs ys : List α) : Except Error Bool :=
  if xs.length = ys.length then
    (Action.allM (fun pair => f pair.1 pair.2) (xs.zip ys)).eval
  else
    return false

def draws (xs : List α) (n : Nat) : List (Option α) :=
  (xs.take n).map some ++ List.replicate (n - xs.length) none

def shown (f : α -> Action α String) (whole : List String -> String) (xs : List α) :
    Except Error String := do
  return whole (← (xs.mapM f).eval)

def serialized (format : ListFormat α σ String) (xs : List α) : Except Error String :=
  (format.write (some xs.length) xs).eval

def step (element : Element α σ) (outline : Outline α) (number : Nat) :
    Step α -> Except Error (Answer α × Outline α)
  | .empty => return outline.push []
  | .clone => return outline.push (outline.version number)
  | .ofList elements => return outline.push elements
  | .prepend elements => return outline.push (elements ++ outline.version number)
  | .append elements => return outline.push (outline.version number ++ elements)
  | .reverse => return outline.push (outline.version number).reverse
  | .rest => do return outline.push (← found .rest (outline.version number).tail?)
  | .concat others =>
      return outline.push (outline.version number ++ (others.map outline.version).flatten)
  | .drop n => do return outline.push (← dropped n (outline.version number))
  | .head => do return (.element (← found .head (outline.version number).head?), outline)
  | .last => do return (.element (← found .last (outline.version number).getLast?), outline)
  | .get index => return (.element? (outline.version number)[index]?, outline)
  | .length => return (.count (outline.version number).length, outline)
  | .isEmpty => return (.truth (outline.version number).isEmpty, outline)
  | .toList => return (.elements (outline.version number), outline)
  | .draw n => do
      let left := (outline.version number).length - n
      return (.drawn (draws (outline.version number) n) left (left, some left), outline)
  | .agree other => do
      let equal ← agree element.agree (outline.version number) (outline.version other)
      return (.truth equal, outline)
  | .same other => do
      let equal ← agree (fun x y => (element.agree x y).recover fun _ => return false)
        (outline.version number) (outline.version other)
      return (.truth equal, outline)
  | .display => do
      return (.text (← shown element.display (Text.enclosed "[" "]") (outline.version number)),
        outline)
  | .debug => do
      return (.text (← shown element.debug (Text.enclosed "[" "]") (outline.version number)),
        outline)
  | .serialize => do
      return (.text (← serialized element.format (outline.version number)), outline)

def attempt (element : Element α σ) (outline : Outline α) (number : Nat) (step : Step α) :
    Except Error (Answer α) × Outline α :=
  match outline.step element number step with
  | .ok (answer, outline) => (.ok answer, outline)
  | .error error => (.error error, outline)

def attemptAll (element : Element α σ) (outline : Outline α) :
    List (Nat × Step α) -> List (Except Error (Answer α)) × Outline α
  | [] => ([], outline)
  | (number, step) :: rest =>
      let (answer, outline) := outline.attempt element number step
      let (answers, outline) := attemptAll element outline rest
      (answer :: answers, outline)

def run (element : Element α σ) (steps : List (Nat × Step α)) :
    List (Except Error (Answer α)) × Outline α :=
  start.attemptAll element steps

end Outline

def Answer.outline : Answer α -> Outline.Answer α
  | version number s => .version number s.toList
  | element x => .element x
  | element? x => .element? x
  | elements xs => .elements xs
  | drawn items left hint => .drawn items left hint
  | count n => .count n
  | truth b => .truth b
  | text s => .text s

namespace Outline

theorem dropped_succ (n : Nat) (xs : List α) :
    dropped (n + 1) xs = (found .rest xs.tail? >>= dropped n) := by
  cases xs with
  | nil =>
      rfl
  | cons x rest =>
      show dropped (n + 1) (x :: rest) = dropped n rest
      simp only [dropped, List.length_cons, Nat.add_le_add_iff_right, List.drop_succ_cons]

/-! ## Outlines only grow -/

def Within (Given : α -> Prop) (outline : Outline α) : Prop :=
  forall xs, xs ∈ outline -> forall x, x ∈ xs -> Given x

structure Extends (Given : α -> Prop) (outline after : Outline α) : Prop where
  keeps : outline <+: after
  within : after.Within Given

theorem extends_refl {Given : α -> Prop} {outline : Outline α} (h : outline.Within Given) :
    Extends Given outline outline :=
  ⟨List.prefix_rfl, h⟩

theorem Extends.trans {Given : α -> Prop} {a b c : Outline α} (hab : Extends Given a b)
    (hbc : Extends Given b c) :
    Extends Given a c :=
  ⟨hab.keeps.trans hbc.keeps, hbc.within⟩

theorem extends_push {Given : α -> Prop} {outline : Outline α} {xs : List α}
    (h : outline.Within Given) (hxs : forall x, x ∈ xs -> Given x) :
    Extends Given outline (outline.push xs).2 where
  keeps := List.prefix_append _ _
  within := by
    intro ys hys
    rcases List.mem_append.mp hys with hys | hys
    · exact h ys hys
    · rw [List.mem_singleton.mp hys]
      exact hxs

theorem Within.version {Given : α -> Prop} {outline : Outline α} (h : outline.Within Given)
    (number : Nat) :
    forall x, x ∈ outline.version number -> Given x := by
  unfold Outline.version
  rw [List.getD_eq_getElem?_getD]
  cases hversion : outline[number]? with
  | none =>
      simp
  | some xs =>
      exact h xs (List.mem_of_getElem? hversion)

def Ensures {β : Type} (P : β -> Prop) (x : Except Error β) : Prop :=
  forall b, x = .ok b -> P b

theorem ensures_ok {β : Type} {P : β -> Prop} {b : β} (hb : P b) :
    Ensures P (.ok b) := by
  intro c hc
  cases hc
  exact hb

theorem ensures_error {β : Type} {P : β -> Prop} (error : Error) :
    Ensures P (.error error) := by
  intro c hc
  cases hc

theorem ensures_found {β : Type} {P : β -> Prop} {access : Access} {found? : Option β}
    (h : forall b, found? = some b -> P b) :
    Ensures P (found access found?) := by
  cases found? with
  | none =>
      exact ensures_error _
  | some b =>
      exact ensures_ok (h b rfl)

theorem ensures_bind {β γ : Type} {P : γ -> Prop} {x : Except Error β}
    {f : β -> Except Error γ} (h : Ensures (fun b => Ensures P (f b)) x) :
    Ensures P (x >>= f) := by
  cases x with
  | error error =>
      intro c hc
      cases hc
  | ok b =>
      exact h b rfl

theorem Within.step {Given : α -> Prop} {outline : Outline α} (h : outline.Within Given)
    (element : Element α σ) (number : Nat) {step : Step α}
    (hstep : forall x, x ∈ step.elements -> Given x) :
    Ensures (fun answered => Extends Given outline answered.2)
      (outline.step element number step) := by
  have hversion := h.version
  cases step with
  | empty =>
      exact ensures_ok (extends_push h (by simp))
  | clone =>
      exact ensures_ok (extends_push h (hversion number))
  | ofList elements =>
      exact ensures_ok (extends_push h hstep)
  | prepend elements =>
      exact ensures_ok (extends_push h (List.forall_mem_append.mpr ⟨hstep, hversion number⟩))
  | append elements =>
      exact ensures_ok (extends_push h (List.forall_mem_append.mpr ⟨hversion number, hstep⟩))
  | reverse =>
      exact ensures_ok (extends_push h fun x hx => hversion number x (List.mem_reverse.mp hx))
  | rest =>
      apply ensures_bind
      apply ensures_found
      intro xs hxs
      apply ensures_ok
      apply extends_push h
      have hall := hversion number
      cases hlist : outline.version number with
      | nil =>
          rw [hlist] at hxs
          cases hxs
      | cons first beyond =>
          rw [hlist] at hxs hall
          cases hxs
          exact (List.forall_mem_cons.mp hall).2
  | concat others =>
      apply ensures_ok
      apply extends_push h
      rw [List.forall_mem_append]
      refine ⟨hversion number, ?_⟩
      intro x hx
      rcases List.mem_flatten.mp hx with ⟨xs, hxs, hx⟩
      rcases List.mem_map.mp hxs with ⟨other, _hother, rfl⟩
      exact hversion other x hx
  | drop n =>
      apply ensures_bind
      unfold dropped
      split
      · apply ensures_ok
        exact ensures_ok (extends_push h fun x hx => hversion number x (List.mem_of_mem_drop hx))
      · exact ensures_error _
  | head =>
      exact ensures_bind fun _ _ => ensures_ok (extends_refl h)
  | last =>
      exact ensures_bind fun _ _ => ensures_ok (extends_refl h)
  | get index =>
      exact ensures_ok (extends_refl h)
  | length =>
      exact ensures_ok (extends_refl h)
  | isEmpty =>
      exact ensures_ok (extends_refl h)
  | toList =>
      exact ensures_ok (extends_refl h)
  | draw n =>
      exact ensures_ok (extends_refl h)
  | agree other =>
      exact ensures_bind fun _ _ => ensures_ok (extends_refl h)
  | same other =>
      exact ensures_bind fun _ _ => ensures_ok (extends_refl h)
  | display =>
      exact ensures_bind fun _ _ => ensures_ok (extends_refl h)
  | debug =>
      exact ensures_bind fun _ _ => ensures_ok (extends_refl h)
  | serialize =>
      exact ensures_bind fun _ _ => ensures_ok (extends_refl h)

theorem Within.attempt {Given : α -> Prop} {outline : Outline α} (h : outline.Within Given)
    (element : Element α σ) (number : Nat) {step : Step α}
    (hstep : forall x, x ∈ step.elements -> Given x) :
    Extends Given outline (outline.attempt element number step).2 := by
  unfold Outline.attempt
  have hensures := h.step element number hstep
  cases hanswered : outline.step element number step with
  | error error =>
      exact extends_refl h
  | ok answered =>
      exact hensures answered hanswered

theorem Within.attemptAll {Given : α -> Prop} {outline : Outline α} (h : outline.Within Given)
    (element : Element α σ) {steps : List (Nat × Step α)}
    (hsteps : forall x, x ∈ steps.flatMap (fun step => step.2.elements) -> Given x) :
    Extends Given outline (outline.attemptAll element steps).2 := by
  induction steps generalizing outline with
  | nil =>
      exact extends_refl h
  | cons step rest ih =>
      rw [List.flatMap_cons, List.forall_mem_append] at hsteps
      have hattempt := h.attempt element step.1 hsteps.1
      exact hattempt.trans (ih hattempt.within hsteps.2)

theorem within_start (Given : α -> Prop) :
    (start : Outline α).Within Given := by
  intro xs hxs x hx
  rw [List.mem_singleton.mp hxs] at hx
  cases hx

theorem attemptAll_append (element : Element α σ) (outline : Outline α)
    (earlier later : List (Nat × Step α)) :
    (outline.attemptAll element (earlier ++ later)).2 =
      ((outline.attemptAll element earlier).2.attemptAll element later).2 := by
  induction earlier generalizing outline with
  | nil =>
      rfl
  | cons step rest ih =>
      exact ih (outline.attempt element step.1 step.2).2

theorem within_run (element : Element α σ) (steps : List (Nat × Step α)) :
    (run element steps).2.Within fun x => x ∈ steps.flatMap fun step => step.2.elements :=
  ((within_start _).attemptAll element fun _ => id).within

theorem run_keeps (element : Element α σ) (earlier later : List (Nat × Step α)) :
    (run element earlier).2 <+: (run element (earlier ++ later)).2 := by
  unfold run
  rw [attemptAll_append]
  have hall : (start.attemptAll element earlier).2.Within fun _ => True :=
    fun _ _ _ _ => trivial
  exact (hall.attemptAll element fun _ _ => trivial).keeps

end Outline

end Sequence

end ValueStore
