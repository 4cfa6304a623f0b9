import ValueStore.Proofs.Tree.RedBlack
import ValueStore.Tree.Walk

/-!
# What a walk yields

The subtrees on the stack of a walk, listed one after the other, are what it still has
to yield. Each call takes the first entry of that list, and the count that a walk keeps
is its length. A visitor that goes down the tree by recursion is shown the same entries
in the same order.
-/

namespace ValueStore

namespace Tree

variable {β σ : Type}

theorem visit_eq_foldl (visitor : σ -> Int64 -> β -> σ) (t : Tree β) (state : σ) :
    t.visit visitor state =
      t.toList.foldl (fun state entry => visitor state entry.1 entry.2) state := by
  induction t generalizing state with
  | leaf =>
      rfl
  | node color l k v r ihl ihr =>
      rw [visit, ihl, ihr, toList, List.foldl_cons, List.foldl_append]

end Tree

namespace Walk

variable {β : Type}

def pending (walk : Walk β) : List (Int64 × β) :=
  walk.stack.flatMap Tree.toList

def Stacked (walk : Walk β) : Prop :=
  forall t, t ∈ walk.stack -> t ≠ Tree.leaf

structure Counted (walk : Walk β) : Prop where
  nodes : walk.Stacked
  remaining : walk.remaining = walk.pending.length

theorem flatMap_push (t : Tree β) (stack : List (Tree β)) :
    (push t stack).flatMap Tree.toList = t.toList ++ stack.flatMap Tree.toList := by
  cases t with
  | leaf =>
      rfl
  | node color l k v r =>
      rfl

theorem forall_mem_push {t : Tree β} {stack : List (Tree β)}
    (hstack : forall t, t ∈ stack -> t ≠ Tree.leaf) :
    forall t', t' ∈ push t stack -> t' ≠ Tree.leaf := by
  cases t with
  | leaf =>
      exact hstack
  | node color l k v r =>
      exact List.forall_mem_cons.mpr ⟨by simp, hstack⟩

theorem stacked_ofIndex (index : Index β) :
    (ofIndex index).Stacked :=
  forall_mem_push (List.forall_mem_nil _)

theorem pending_ofIndex (index : Index β) :
    (ofIndex index).pending = index.toList := by
  unfold pending ofIndex
  rw [flatMap_push, List.flatMap_nil, List.append_nil]
  rfl

theorem counted_ofIndex {index : Index β} (h : index.RedBlack) :
    (ofIndex index).pending = index.toList ∧ (ofIndex index).Counted := by
  refine ⟨pending_ofIndex index, stacked_ofIndex index, ?_⟩
  rw [pending_ofIndex]
  exact h.counted.trans (Tree.length_toList index.root).symm

theorem Stacked.next? {walk : Walk β} (h : walk.Stacked) :
    (walk.pending = [] ∧ walk.next? = none) ∨
      exists entry after, walk.next? = some (entry, after) ∧
        walk.pending = entry :: after.pending ∧ after.remaining = walk.remaining - 1 ∧
          after.Stacked := by
  rcases walk with ⟨stack, remaining⟩
  cases stack with
  | nil =>
      exact Or.inl ⟨rfl, rfl⟩
  | cons t stack =>
      rcases List.forall_mem_cons.mp h with ⟨hnode, hstack⟩
      cases t with
      | leaf =>
          exact (hnode rfl).elim
      | node color l k v r =>
          have hpending : pending ⟨.node color l k v r :: stack, remaining⟩ =
              (k, v) :: pending ⟨push r (push l stack), remaining - 1⟩ := by
            unfold pending
            rw [flatMap_push, flatMap_push, List.flatMap_cons, Tree.toList, List.cons_append,
              List.append_assoc]
          exact Or.inr ⟨(k, v), _, rfl, hpending, rfl, forall_mem_push (forall_mem_push hstack)⟩

theorem Counted.next? {walk : Walk β} (h : walk.Counted) :
    (walk.pending = [] ∧ walk.next? = none) ∨
      exists entry after, walk.next? = some (entry, after) ∧
        walk.pending = entry :: after.pending ∧ after.Counted := by
  rcases h.nodes.next? with hnone | ⟨entry, after, hnext, hpending, hremaining, hafter⟩
  · exact Or.inl hnone
  · refine Or.inr ⟨entry, after, hnext, hpending, hafter, ?_⟩
    rw [hremaining, h.remaining, hpending]
    rfl

theorem draw_of_next?_eq_none {walk : Walk β} (hnext : walk.next? = none) (n : Nat) :
    walk.draw n = (List.replicate n none, walk) := by
  cases n with
  | zero =>
      rfl
  | succ n =>
      unfold draw
      rw [hnext]

theorem Counted.draw {walk : Walk β} (h : walk.Counted) (n : Nat) :
    (walk.draw n).1 =
        (walk.pending.take n).map some ++ List.replicate (n - walk.pending.length) none ∧
      (walk.draw n).2.pending = walk.pending.drop n ∧ (walk.draw n).2.Counted := by
  induction n generalizing walk with
  | zero =>
      exact ⟨by simp [Walk.draw], rfl, h⟩
  | succ n ih =>
      rcases h.next? with ⟨hpending, hnext⟩ | ⟨entry, after, hnext, hpending, hafter⟩
      · rw [draw_of_next?_eq_none hnext, hpending]
        exact ⟨by simp, by simp, h⟩
      · rcases ih hafter with ⟨hitems, hrest, hcounted⟩
        unfold Walk.draw
        rw [hnext, hpending]
        refine ⟨?_, hrest, hcounted⟩
        simp [hitems]

theorem Counted.length_eq_zero_iff {walk : Walk β} (h : walk.Counted) :
    walk.length = 0 ↔ walk.next? = none := by
  unfold length
  rw [h.remaining, List.length_eq_zero_iff]
  rcases h.next? with ⟨hpending, hnext⟩ | ⟨entry, after, hnext, hpending, _hafter⟩
  · exact iff_of_true hpending hnext
  · rw [hpending, hnext]
    exact iff_of_false (List.cons_ne_nil _ _) (Option.some_ne_none _)

end Walk

namespace Index

variable {β ε : Type}

theorem visitAll_eq_foldl {σ : Type} (index : Index β) (visitor : σ -> Int64 -> β -> σ)
    (state : σ) :
    index.visitAll visitor state =
      index.toList.foldl (fun state entry => visitor state entry.1 entry.2) state :=
  Tree.visit_eq_foldl visitor index.root state

theorem visitAll_note (index : Index β) :
    index.visitAll (fun seen key value => seen ++ [(key, value)]) [] = index.toList := by
  rw [visitAll_eq_foldl, List.foldl_append_eq_append, List.nil_append, ← List.flatMap_def]
  exact List.flatMap_singleton' index.toList

/--
After every run of changes a walk yields one by one what a visitor is shown at once: a node first,
then what is right of it, then what is left of it. The walk counts what is still to come, and is
down to zero exactly when the next call has no answer.
-/
theorem run_empty_walk_like_visitor (handler : Handler β ε) (steps : List (Step β ε)) :
    let index := empty.run handler steps
    let visited := index.visitAll (fun seen key value => seen ++ [(key, value)]) []
    visited = index.toList ∧
      (forall {σ : Type} (visitor : σ -> Int64 -> β -> σ) (state : σ),
        index.visitAll visitor state =
          visited.foldl (fun state entry => visitor state entry.1 entry.2) state) ∧
      forall n,
        let drawn := (Walk.ofIndex index).draw n
        drawn.1 = (visited.take n).map some ++ List.replicate (n - visited.length) none ∧
          drawn.2.length = (visited.drop n).length ∧
          drawn.2.sizeHint = ((visited.drop n).length, some (visited.drop n).length) ∧
          (drawn.2.length = 0 ↔ drawn.2.next? = none) := by
  intro index visited
  have h : index.RedBlack := redBlack_empty.run handler steps
  have hvisited : visited = index.toList := index.visitAll_note
  rcases Walk.counted_ofIndex h with ⟨hpending, hcounted⟩
  refine ⟨hvisited, ?_, ?_⟩
  · intro σ visitor state
    rw [hvisited]
    exact index.visitAll_eq_foldl visitor state
  · intro n drawn
    rcases hcounted.draw n with ⟨hitems, hrest, hafter⟩
    rw [hpending, ← hvisited] at hitems hrest
    have hleft : drawn.2.length = (visited.drop n).length := by
      rw [← hrest]
      exact hafter.remaining
    refine ⟨hitems, hleft, ?_, hafter.length_eq_zero_iff⟩
    rw [← hleft]
    rfl

end Index

end ValueStore
