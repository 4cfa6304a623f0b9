import Mathlib.Data.List.Forall2
import ValueStore.Action

/-!
# The plain meaning of actions

How the plain meaning of a compound action follows from that of its first part.
-/

namespace ValueStore

namespace Action

variable {α β γ : Type}

theorem eval_bind_of_ok {x : Action α β} {b : β} (hx : x.eval = .ok b)
    (f : β -> Action α γ) :
    (x >>= f).eval = (f b).eval := by
  rw [eval_bind, hx]
  rfl

theorem eval_bind_of_error {x : Action α β} {error : Error} (hx : x.eval = .error error)
    (f : β -> Action α γ) :
    (x >>= f).eval = .error error := by
  rw [eval_bind, hx]
  rfl

def refusal? (x : Action α β) : Option Error :=
  match x.eval with
  | .ok _ => none
  | .error error => some error

theorem refusal?_eq_some_iff {x : Action α β} {error : Error} :
    x.refusal? = some error ↔ x.eval = .error error := by
  unfold refusal?
  cases x.eval with
  | ok b =>
      simp
  | error error' =>
      simp

theorem refusal?_of_ok {x : Action α β} {b : β} (hx : x.eval = .ok b) :
    x.refusal? = none := by
  rw [refusal?, hx]

theorem refusal?_bind_of_ok {x : Action α β} {b : β} (hx : x.eval = .ok b)
    (f : β -> Action α γ) :
    (x >>= f).refusal? = (f b).refusal? := by
  rw [refusal?, eval_bind_of_ok hx, refusal?]

theorem refusal?_bind_of_error {x : Action α β} {error : Error} (hx : x.eval = .error error)
    (f : β -> Action α γ) :
    (x >>= f).refusal? = some error :=
  refusal?_eq_some_iff.mpr (eval_bind_of_error hx f)

theorem refusal?_bind_pure (x : Action α β) (f : β -> γ) :
    (x >>= fun b => pure (f b)).refusal? = x.refusal? := by
  cases hx : x.eval with
  | error error =>
      rw [refusal?_bind_of_error hx, refusal?_eq_some_iff.mpr hx]
  | ok b =>
      rw [refusal?_bind_of_ok hx, refusal?_of_ok hx]
      rfl

theorem exists_of_eval_bind_eq_ok {x : Action α β} {f : β -> Action α γ} {c : γ}
    (hbind : (x >>= f).eval = .ok c) :
    exists b, x.eval = .ok b ∧ (f b).eval = .ok c := by
  cases hx : x.eval with
  | error error =>
      rw [eval_bind_of_error hx] at hbind
      cases hbind
  | ok b =>
      rw [eval_bind_of_ok hx] at hbind
      exact ⟨b, rfl, hbind⟩

theorem eval_bind_pure (x : Action α β) (f : β -> γ) :
    (x >>= fun b => pure (f b)).eval = x.eval.map f := by
  cases hx : x.eval with
  | error error =>
      exact eval_bind_of_error hx _
  | ok b =>
      exact eval_bind_of_ok hx _

theorem eval_bind_congr {x y : Action α β} {f g : β -> Action α γ} (hxy : x.eval = y.eval)
    (hfg : forall b, x.eval = .ok b -> (f b).eval = (g b).eval) :
    (x >>= f).eval = (y >>= g).eval := by
  cases hx : x.eval with
  | error error =>
      rw [eval_bind_of_error hx, eval_bind_of_error (hxy ▸ hx)]
  | ok b =>
      rw [eval_bind_of_ok hx, eval_bind_of_ok (hxy ▸ hx), hfg b hx]

theorem allM_cons_of_true {test : β -> Action α Bool} {x : β}
    (htest : (test x).eval = .ok true) (rest : List β) :
    (allM test (x :: rest)).eval = (allM test rest).eval := by
  rw [allM, eval_bind_of_ok htest]
  rfl

theorem allM_cons_of_false {test : β -> Action α Bool} {x : β}
    (htest : (test x).eval = .ok false) (rest : List β) :
    (allM test (x :: rest)).eval = .ok false := by
  rw [allM, eval_bind_of_ok htest]
  rfl

theorem allM_cons_of_error {test : β -> Action α Bool} {x : β} {error : Error}
    (htest : (test x).eval = .error error) (rest : List β) :
    (allM test (x :: rest)).eval = .error error := by
  rw [allM, eval_bind_of_error htest]

theorem allM_eq_true_iff {test : β -> Action α Bool} {elements : List β} :
    (allM test elements).eval = .ok true ↔
      forall x, x ∈ elements -> (test x).eval = .ok true := by
  induction elements with
  | nil =>
      simp [allM]
  | cons x rest ih =>
      rw [List.forall_mem_cons, ← ih]
      cases htest : (test x).eval with
      | error error =>
          simp [allM_cons_of_error htest]
      | ok answer =>
          cases answer with
          | true =>
              simp [allM_cons_of_true htest]
          | false =>
              simp [allM_cons_of_false htest]

theorem allM_congr {test test' : β -> Action α Bool} {elements : List β}
    (heq : forall x, x ∈ elements -> (test x).eval = (test' x).eval) :
    (allM test elements).eval = (allM test' elements).eval := by
  induction elements with
  | nil =>
      rfl
  | cons x rest ih =>
      rcases List.forall_mem_cons.mp heq with ⟨hx, hrest⟩
      cases htest : (test x).eval with
      | error error =>
          rw [allM_cons_of_error htest, allM_cons_of_error (hx ▸ htest)]
      | ok answer =>
          cases answer with
          | true =>
              rw [allM_cons_of_true htest, allM_cons_of_true (hx ▸ htest), ih hrest]
          | false =>
              rw [allM_cons_of_false htest, allM_cons_of_false (hx ▸ htest)]

theorem allM_answers {test : β -> Action α Bool} {elements : List β}
    (hanswers : forall x, x ∈ elements -> exists answer, (test x).eval = .ok answer) :
    exists answer, (allM test elements).eval = .ok answer := by
  induction elements with
  | nil =>
      exact ⟨true, rfl⟩
  | cons x rest ih =>
      rcases List.forall_mem_cons.mp hanswers with ⟨⟨answer, hx⟩, hrest⟩
      cases answer with
      | true =>
          rw [allM_cons_of_true hx]
          exact ih hrest
      | false =>
          exact ⟨false, allM_cons_of_false hx rest⟩

theorem allM_refused {test : β -> Action α Bool} {elements : List β} {error : Error}
    (herror : (allM test elements).eval = .error error) :
    exists x, x ∈ elements ∧ (test x).eval = .error error := by
  induction elements with
  | nil =>
      cases herror
  | cons x rest ih =>
      cases htest : (test x).eval with
      | error error' =>
          cases (allM_cons_of_error htest rest).symm.trans herror
          exact ⟨x, List.mem_cons_self, htest⟩
      | ok answer =>
          cases answer with
          | true =>
              rw [allM_cons_of_true htest] at herror
              rcases ih herror with ⟨y, hy, hrefused⟩
              exact ⟨y, List.mem_cons_of_mem _ hy, hrefused⟩
          | false =>
              cases (allM_cons_of_false htest rest).symm.trans herror

theorem allM_of_first {test : β -> Action α Bool} {before after : List β} {x : β}
    {outcome : Except Error Bool}
    (hbefore : forall y, y ∈ before -> (test y).eval = .ok true)
    (hx : (test x).eval = outcome) (hne : outcome ≠ .ok true) :
    (allM test (before ++ x :: after)).eval = outcome := by
  induction before with
  | nil =>
      rw [List.nil_append]
      cases outcome with
      | error error =>
          exact allM_cons_of_error hx after
      | ok answer =>
          cases answer with
          | true =>
              exact absurd rfl hne
          | false =>
              exact allM_cons_of_false hx after
  | cons y rest ih =>
      rcases List.forall_mem_cons.mp hbefore with ⟨hy, hrest⟩
      rw [List.cons_append, allM_cons_of_true hy]
      exact ih hrest

theorem forall_or_exists_first (P : β -> Prop) (xs : List β) :
    (forall x, x ∈ xs -> P x) ∨
      exists before x after, xs = before ++ x :: after ∧ (forall y, y ∈ before -> P y) ∧ ¬P x := by
  induction xs with
  | nil =>
      exact Or.inl (List.forall_mem_nil _)
  | cons x rest ih =>
      by_cases hx : P x
      · rcases ih with hall | ⟨before, y, after, rfl, hbefore, hy⟩
        · exact Or.inl (List.forall_mem_cons.mpr ⟨hx, hall⟩)
        · exact Or.inr ⟨x :: before, y, after, rfl, List.forall_mem_cons.mpr ⟨hx, hbefore⟩, hy⟩
      · exact Or.inr ⟨[], x, rest, rfl, List.forall_mem_nil _, hx⟩

theorem exists_first_of_allM {test : β -> Action α Bool} {elements : List β}
    {outcome : Except Error Bool} (hall : (allM test elements).eval = outcome)
    (hne : outcome ≠ .ok true) :
    exists before x after, elements = before ++ x :: after ∧
      (forall y, y ∈ before -> (test y).eval = .ok true) ∧ (test x).eval = outcome := by
  rcases forall_or_exists_first (fun x => (test x).eval = .ok true) elements with
    hpass | ⟨before, x, after, rfl, hbefore, hx⟩
  · exact absurd (hall.symm.trans (allM_eq_true_iff.mpr hpass)) hne
  · exact ⟨before, x, after, rfl, hbefore, (allM_of_first hbefore rfl hx).symm.trans hall⟩

theorem mapM_congr {δ : Type} {f : β -> Action α δ} {g : γ -> Action α δ} {xs : List β}
    {ys : List γ} (heq : List.Forall₂ (fun x y => (f x).eval = (g y).eval) xs ys) :
    (xs.mapM f).eval = (ys.mapM g).eval := by
  induction heq with
  | nil =>
      rfl
  | cons hxy _hrest ih =>
      rw [List.mapM_cons, List.mapM_cons]
      apply eval_bind_congr hxy
      intro b _hb
      exact eval_bind_congr ih (fun _ _ => rfl)

theorem exists_of_mapM_cons {f : β -> Action α γ} {x : β} {rest : List β} {ys : List γ}
    (hcons : ((x :: rest).mapM f).eval = .ok ys) :
    exists y zs, (f x).eval = .ok y ∧ (rest.mapM f).eval = .ok zs ∧ ys = y :: zs := by
  rw [List.mapM_cons] at hcons
  rcases exists_of_eval_bind_eq_ok hcons with ⟨y, hx, hcons⟩
  rcases exists_of_eval_bind_eq_ok hcons with ⟨zs, hrest, hys⟩
  exact ⟨y, zs, hx, hrest, (Except.ok.inj hys).symm⟩

theorem mapM_answers {f : β -> Action α γ} {xs : List β} {ys : List γ}
    (hxs : (xs.mapM f).eval = .ok ys) :
    forall x, x ∈ xs -> exists y, (f x).eval = .ok y := by
  induction xs generalizing ys with
  | nil =>
      intro x hx
      cases hx
  | cons x rest ih =>
      rcases exists_of_mapM_cons hxs with ⟨y, zs, hx, hrest, _hys⟩
      rw [List.forall_mem_cons]
      exact ⟨⟨y, hx⟩, ih hrest⟩

theorem forall₂_of_mapM_eq {f : β -> Action α γ} {xs ys : List β} {zs : List γ}
    (hxs : (xs.mapM f).eval = .ok zs) (hys : (ys.mapM f).eval = .ok zs) :
    List.Forall₂ (fun x y => (f x).eval = (f y).eval) xs ys := by
  induction xs generalizing ys zs with
  | nil =>
      cases hxs
      cases ys with
      | nil =>
          exact List.Forall₂.nil
      | cons y ys =>
          rcases exists_of_mapM_cons hys with ⟨z, zs, _hy, _hys, hnil⟩
          cases hnil
  | cons x xs ih =>
      rcases exists_of_mapM_cons hxs with ⟨z, rest, hx, hxrest, rfl⟩
      cases ys with
      | nil =>
          cases hys
      | cons y ys =>
          rcases exists_of_mapM_cons hys with ⟨z', rest', hy, hyrest, hcons⟩
          cases hcons
          exact List.Forall₂.cons (hx.trans hy.symm) (ih hxrest hyrest)

theorem mapM_refused {f : β -> Action α γ} {xs : List β} {error : Error}
    (herror : (xs.mapM f).eval = .error error) :
    exists x, x ∈ xs ∧ (f x).eval = .error error := by
  induction xs with
  | nil =>
      cases herror
  | cons x rest ih =>
      rw [List.mapM_cons] at herror
      cases hx : (f x).eval with
      | error error' =>
          cases (eval_bind_of_error hx _).symm.trans herror
          exact ⟨x, List.mem_cons_self, hx⟩
      | ok y =>
          rw [eval_bind_of_ok hx] at herror
          cases hrest : (rest.mapM f).eval with
          | error error' =>
              cases (eval_bind_of_error hrest _).symm.trans herror
              rcases ih hrest with ⟨z, hz, hrefused⟩
              exact ⟨z, List.mem_cons_of_mem _ hz, hrefused⟩
          | ok ys =>
              cases (eval_bind_of_ok hrest _).symm.trans herror

theorem findSome?_congr {δ : Type} {f : β -> Option δ} {g : γ -> Option δ} {xs : List β}
    {ys : List γ} (heq : List.Forall₂ (fun x y => f x = g y) xs ys) :
    xs.findSome? f = ys.findSome? g := by
  induction heq with
  | nil =>
      rfl
  | cons hxy _hrest ih =>
      rw [List.findSome?_cons, List.findSome?_cons, hxy, ih]

theorem refusal?_mapM (f : β -> Action α γ) (xs : List β) :
    (xs.mapM f).refusal? = xs.findSome? fun x => (f x).refusal? := by
  induction xs with
  | nil =>
      rfl
  | cons x rest ih =>
      rw [List.mapM_cons, List.findSome?_cons]
      cases hx : (f x).eval with
      | error error =>
          rw [refusal?_bind_of_error hx, refusal?_eq_some_iff.mpr hx]
      | ok y =>
          rw [refusal?_bind_of_ok hx, refusal?_bind_pure, refusal?_of_ok hx, ih]

/-! ## Steps that bring a state closer to its end -/

section

variable {σ ω : Type} {Awaits : Nat -> σ -> Prop}

theorem foldlM_of_answers {step : σ -> β -> Action α σ} {xs : List β} {n : Nat} {state : σ}
    (hstate : Awaits (xs.length + n) state)
    (hstep : forall n state x, x ∈ xs -> Awaits (n + 1) state ->
      exists after, (step state x).eval = .ok after ∧ Awaits n after) :
    exists after, (xs.foldlM step state).eval = .ok after ∧ Awaits n after := by
  induction xs generalizing state with
  | nil =>
      rw [List.length_nil, Nat.zero_add] at hstate
      exact ⟨state, rfl, hstate⟩
  | cons x rest ih =>
      rw [List.length_cons, Nat.add_right_comm] at hstate
      rcases hstep _ state x List.mem_cons_self hstate with ⟨next, hx, hnext⟩
      rw [List.foldlM_cons, eval_bind_of_ok hx]
      exact ih hnext fun n state y hy => hstep n state y (List.mem_cons_of_mem _ hy)

theorem foldlM_of_refused {step : σ -> β -> Action α σ} {before after : List β} {x : β}
    {error : Error} {state : σ} (hstate : Awaits (before ++ x :: after).length state)
    (hbefore : forall n state y, y ∈ before -> Awaits (n + 1) state ->
      exists next, (step state y).eval = .ok next ∧ Awaits n next)
    (hx : forall n state, Awaits (n + 1) state -> (step state x).eval = .error error) :
    ((before ++ x :: after).foldlM step state).eval = .error error := by
  rw [List.length_append, List.length_cons] at hstate
  rcases foldlM_of_answers hstate hbefore with ⟨next, hanswer, hnext⟩
  rw [List.foldlM_append, eval_bind_of_ok hanswer, List.foldlM_cons,
    eval_bind_of_error (hx _ next hnext)]

theorem foldlM_congr {step : σ -> β -> Action α σ} {step' : σ -> γ -> Action α σ} {xs : List β}
    {ys : List γ} {state : σ} (hstate : Awaits xs.length state)
    (heq : List.Forall₂ (fun x y => forall n state, Awaits (n + 1) state ->
      (step state x).eval = (step' state y).eval ∧
        forall after, (step state x).eval = .ok after -> Awaits n after) xs ys) :
    (xs.foldlM step state).eval = (ys.foldlM step' state).eval := by
  induction heq generalizing state with
  | nil =>
      rfl
  | cons hxy _hrest ih =>
      rw [List.foldlM_cons, List.foldlM_cons]
      rcases hxy _ state hstate with ⟨hstep, hafter⟩
      exact eval_bind_congr hstep fun next hnext => ih (hafter next hnext)

def framed (start : Action α σ) (step : σ -> β -> Action α σ) (finish : σ -> Action α ω)
    (xs : List β) : Action α ω := do
  let begun ← start
  let state ← xs.foldlM step begun
  finish state

theorem framed_of_answers {start : Action α σ} {step : σ -> β -> Action α σ}
    {finish : σ -> Action α ω} {xs : List β}
    (hstart : exists begun, start.eval = .ok begun ∧ Awaits xs.length begun)
    (hstep : forall n state x, x ∈ xs -> Awaits (n + 1) state ->
      exists after, (step state x).eval = .ok after ∧ Awaits n after)
    (hfinish : forall state, Awaits 0 state -> exists c, (finish state).eval = .ok c) :
    exists c, (framed start step finish xs).eval = .ok c := by
  rcases hstart with ⟨begun, hbegun, hawaits⟩
  rcases foldlM_of_answers (n := 0) hawaits hstep with ⟨state, hstate, hend⟩
  rcases hfinish state hend with ⟨c, hc⟩
  refine ⟨c, ?_⟩
  rw [framed, eval_bind_of_ok hbegun, eval_bind_of_ok hstate, hc]

theorem framed_of_refused {start : Action α σ} {step : σ -> β -> Action α σ}
    {finish : σ -> Action α ω} {before after : List β} {x : β} {error : Error}
    (hstart : exists begun, start.eval = .ok begun ∧ Awaits (before ++ x :: after).length begun)
    (hbefore : forall n state y, y ∈ before -> Awaits (n + 1) state ->
      exists next, (step state y).eval = .ok next ∧ Awaits n next)
    (hx : forall n state, Awaits (n + 1) state -> (step state x).eval = .error error) :
    (framed start step finish (before ++ x :: after)).eval = .error error := by
  rcases hstart with ⟨begun, hbegun, hawaits⟩
  rw [framed, eval_bind_of_ok hbegun,
    eval_bind_of_error (foldlM_of_refused hawaits hbefore hx)]

theorem framed_congr {start : Action α σ} {step : σ -> β -> Action α σ}
    {step' : σ -> γ -> Action α σ} {finish : σ -> Action α ω} {xs : List β} {ys : List γ}
    (hstart : exists begun, start.eval = .ok begun ∧ Awaits xs.length begun)
    (heq : List.Forall₂ (fun x y => forall n state, Awaits (n + 1) state ->
      (step state x).eval = (step' state y).eval ∧
        forall after, (step state x).eval = .ok after -> Awaits n after) xs ys) :
    (framed start step finish xs).eval = (framed start step' finish ys).eval := by
  rcases hstart with ⟨begun, hbegun, hawaits⟩
  rw [framed, framed, eval_bind_of_ok hbegun, eval_bind_of_ok hbegun]
  exact eval_bind_congr (foldlM_congr hawaits heq) fun _ _ => rfl

end

/-! ## Properties kept by one action after the other -/

/-- What holds of an answer given at once, and of two actions in a row if it holds of both. -/
structure Closed (P : forall β : Type, Action α β -> Prop) : Prop where
  done : forall {β : Type} (answer : β), P β (done answer)
  bind : forall {β γ : Type} {x : Action α β} {f : β -> Action α γ}, P β x ->
    (forall b, P γ (f b)) -> P γ (x >>= f)

namespace Closed

variable {P : forall β : Type, Action α β -> Prop}

theorem allM (h : Closed P) {test : β -> Action α Bool} {xs : List β}
    (htest : forall x, x ∈ xs -> P Bool (test x)) :
    P Bool (Action.allM test xs) := by
  induction xs with
  | nil =>
      exact h.done true
  | cons x rest ih =>
      rcases List.forall_mem_cons.mp htest with ⟨hx, hrest⟩
      apply h.bind hx
      intro answer
      cases answer with
      | true =>
          exact ih hrest
      | false =>
          exact h.done false

theorem mapM (h : Closed P) {f : β -> Action α γ} {xs : List β}
    (hf : forall x, x ∈ xs -> P γ (f x)) :
    P (List γ) (xs.mapM f) := by
  induction xs with
  | nil =>
      exact h.done []
  | cons x rest ih =>
      rcases List.forall_mem_cons.mp hf with ⟨hx, hrest⟩
      rw [List.mapM_cons]
      exact h.bind hx fun _ => h.bind (ih hrest) fun _ => h.done _

theorem foldlM (h : Closed P) {step : γ -> β -> Action α γ} {xs : List β}
    (hstep : forall state x, x ∈ xs -> P γ (step state x)) (state : γ) :
    P γ (xs.foldlM step state) := by
  induction xs generalizing state with
  | nil =>
      exact h.done state
  | cons x rest ih =>
      rw [List.foldlM_cons]
      apply h.bind (hstep state x List.mem_cons_self)
      exact ih fun state y hy => hstep state y (List.mem_cons_of_mem _ hy)

end Closed

end Action

end ValueStore
