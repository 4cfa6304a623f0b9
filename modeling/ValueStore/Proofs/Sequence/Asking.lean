import ValueStore.Proofs.Sequence.ListFormat
import ValueStore.Sequence.Shelf

/-!
# What operations ask for

Which sequences an operation asks for, and under which cell it puts what it makes. Taking
the first element or what lies beyond it asks only where there is no front chain, joining
asks for every part but the last, and only joining with nothing answers a sequence that is
there already. All that is made else has a cell that no sequence had before.
-/

namespace ValueStore

namespace Sequence

variable {α β σ ω : Type}

def chained (asked : List (Sequence α)) : List (Sequence α) :=
  asked.filter fun s => !s.back.isEmpty

theorem chained_of_back {s : Sequence α} (hback : s.back ≠ []) (rest : List (Sequence α)) :
    chained (s :: rest) = s :: chained rest :=
  List.filter_cons_of_pos (by simpa using hback)

theorem chained_of_no_back {s : Sequence α} (hback : s.back = []) (rest : List (Sequence α)) :
    chained (s :: rest) = chained rest :=
  List.filter_cons_of_neg (by simp [hback])

theorem chained_append (asked later : List (Sequence α)) :
    chained (asked ++ later) = chained asked ++ chained later :=
  List.filter_append ..

/-- The sequence can be read: it counts its chains rightly, and its cell has been given out. -/
structure Ready (cells : Cells α) (s : Sequence α) : Prop where
  counted : s.Counted
  given : s.cell < cells.chains.size

theorem Ready.mono {cells after : Cells α} {s : Sequence α} (h : s.Ready cells)
    (hsize : cells.chains.size ≤ after.chains.size) :
    s.Ready after :=
  ⟨h.counted, Nat.lt_of_lt_of_le h.given hsize⟩

/-- The sequence has a cell that was given out between, and that keeps nothing yet. -/
structure New (cells after : Cells α) (s : Sequence α) : Prop where
  fresh : cells.chains.size ≤ s.cell
  given : s.cell < after.chains.size
  empty : after.kept? s.cell = none

theorem New.mono {cells between after : Cells α} {s : Sequence α} (h : s.New between after)
    (hsize : cells.chains.size ≤ between.chains.size) :
    s.New cells after :=
  ⟨Nat.le_trans hsize h.fresh, h.given, h.empty⟩

theorem size_allocate (cells : Cells α) :
    cells.allocate.2.chains.size = cells.chains.size + 1 :=
  Array.size_push _

theorem new_allocate {cells : Cells α} {s : Sequence α} (hcell : s.cell = cells.chains.size) :
    s.New cells cells.allocate.2 where
  fresh := Nat.le_of_eq hcell.symm
  given := by
    rw [size_allocate, hcell]
    exact Nat.lt_succ_self _
  empty := by
    rw [Cells.kept?_allocate, hcell]
    exact Cells.kept?_of_size_le (Nat.le_refl _)

/-! ## Reading -/

theorem Ready.elements {cells : Cells α} {s : Sequence α} (h : s.Ready cells) :
    (Action.elements s).Asks cells (chained [s]) (.ok (cells.read s).1) (cells.read s).2 := by
  by_cases hback : s.back = []
  · have hread : cells.read s = (s.front, cells) := by
      simp [Cells.read, hback]
    rw [chained_of_no_back hback, hread]
    exact Action.Asks.ordered hback (Action.Asks.done s.front cells)
  · rw [chained_of_back hback]
    exact Action.Asks.chained hback h.counted h.given (Action.Asks.done _ _)

theorem size_le_read (cells : Cells α) (s : Sequence α) :
    cells.chains.size ≤ (cells.read s).2.chains.size :=
  Nat.le_of_eq (Cells.size_read cells s).symm

def AsksFor (x : Action α β) (cells : Cells α) (asked : List (Sequence α)) : Prop :=
  exists outcome after, x.Asks cells asked outcome after

theorem asksFor_still {x : Action α β} (hx : x.Still) (cells : Cells α) :
    AsksFor x cells [] :=
  ⟨_, _, hx.asks cells⟩

theorem Ready.bind {cells : Cells α} {s : Sequence α} (h : s.Ready cells)
    {f : List α -> Action α β} {later : List (Sequence α)}
    (hf : AsksFor (f (cells.read s).1) (cells.read s).2 later) :
    AsksFor (Action.elements s >>= f) cells (chained [s] ++ later) := by
  rcases hf with ⟨outcome, after, hasks⟩
  exact ⟨outcome, after, h.elements.bind hasks⟩

theorem Ready.reading {cells : Cells α} {s : Sequence α} (h : s.Ready cells)
    {f : List α -> Action α β} (hf : forall elements, (f elements).Still) :
    AsksFor (Action.elements s >>= f) cells (chained [s]) := by
  rw [← (chained [s]).append_nil]
  exact h.bind (asksFor_still (hf _) _)

theorem Ready.head {cells : Cells α} {s : Sequence α} (h : s.Ready cells) :
    AsksFor s.head cells (chained (if s.front.isEmpty then [s] else [])) := by
  unfold Sequence.head
  cases hfront : s.front with
  | cons x front =>
      exact asksFor_still (Action.Still.done x) cells
  | nil =>
      apply h.reading
      intro elements
      cases elements with
      | nil =>
          exact Action.Still.fail _
      | cons x rest =>
          exact Action.Still.done x

theorem asksFor_last (s : Sequence α) (cells : Cells α) :
    AsksFor s.last cells [] := by
  apply asksFor_still
  unfold Sequence.last
  split
  · exact Action.Still.done _
  · split
    · exact Action.Still.done _
    · exact Action.Still.fail _

theorem Ready.agree {cells : Cells α} {left right : Sequence α} (hleft : left.Ready cells)
    (hright : right.Ready cells) {f : α -> α -> Action α Bool}
    (hf : forall x y, (f x y).Still) :
    AsksFor (left.agree f right) cells
      (chained (if left.length = right.length then [left, right] else [])) := by
  unfold Sequence.agree
  split
  · rw [← List.singleton_append, chained_append]
    apply hleft.bind
    apply (hright.mono (size_le_read cells left)).reading
    intro rs
    exact Action.closed_still.allM fun pair _hpair => hf pair.1 pair.2
  · exact asksFor_still (Action.Still.done false) cells

theorem Ready.shown {cells : Cells α} {s : Sequence α} (h : s.Ready cells)
    {f : α -> Action α String} (hf : forall x, (f x).Still) (whole : List String -> String) :
    AsksFor (do return whole (← (← Action.elements s).mapM f)) cells (chained [s]) :=
  h.reading fun _ =>
    (Action.closed_still.mapM fun x _hx => hf x).bind fun _ => Action.Still.done _

theorem Ready.serialize {cells : Cells α} {s : Sequence α} (h : s.Ready cells)
    {format : ListFormat α σ ω} (hformat : format.Still) :
    AsksFor (s.serialize format) cells (chained [s]) := by
  rcases hformat.start (some s.length) with ⟨begun, hbegun⟩
  unfold Sequence.serialize
  rw [hbegun]
  apply h.reading
  intro elements
  have hwritten := Action.closed_still.foldlM
    (fun state x (_ : x ∈ elements) => hformat.element state x) begun
  exact hwritten.bind hformat.finish

/-! ## Making -/

/--
The action asks for these sequences, and what it makes is the one that is shared, if one is, and
has a new cell else.
-/
def AsksMaking (x : Action α (Sequence α)) (cells : Cells α) (asked : List (Sequence α))
    (shared : Option (Sequence α)) : Prop :=
  exists outcome after, x.Asks cells asked outcome after ∧
    forall s, outcome = .ok s -> shared = some s ∨ shared = none ∧ s.New cells after

theorem asksMaking_shared (s : Sequence α) (cells : Cells α) :
    AsksMaking (return s) cells [] (some s) := by
  refine ⟨_, _, Action.Asks.done s cells, ?_⟩
  rintro t heq
  cases heq
  exact Or.inl rfl

theorem asks_fresh (make : CellId -> Sequence α) (cells : Cells α) :
    (do return make (← Action.freshCell)).Asks cells [] (.ok (make cells.chains.size))
      cells.allocate.2 :=
  Action.Asks.fresh (Action.Asks.done _ _)

theorem asksMaking_fresh {make : CellId -> Sequence α}
    (hcell : forall cell, (make cell).cell = cell) (cells : Cells α) :
    AsksMaking (do return make (← Action.freshCell)) cells [] none := by
  refine ⟨_, _, asks_fresh make cells, ?_⟩
  rintro s heq
  cases heq
  exact Or.inr ⟨rfl, new_allocate (hcell _)⟩

theorem New.unasked {cells between after : Cells α} {s : Sequence α} (h : s.New cells between)
    {x : Action α β} {outcome : Except Error β} (hasks : x.Asks between [] outcome after) :
    s.New cells after where
  fresh := h.fresh
  given := Nat.lt_of_lt_of_le h.given hasks.size_le
  empty := by
    by_contra hkept
    rcases Option.ne_none_iff_exists'.mp hkept with ⟨elements, helements⟩
    rcases hasks.kept helements with hbefore | ⟨t, ht, _⟩
    · rw [h.empty] at hbefore
      cases hbefore
    · cases ht

theorem AsksMaking.after_fresh (make : CellId -> Sequence α)
    (hcell : forall cell, (make cell).cell = cell) {cells : Cells α}
    {f : Sequence α -> Action α (Sequence α)} {asked : List (Sequence α)}
    {shared : Option (Sequence α)}
    (hf : AsksMaking (f (make cells.chains.size)) cells.allocate.2 asked shared)
    (hshared : forall s, shared = some s -> s = make cells.chains.size ∧ asked = []) :
    AsksMaking ((do return make (← Action.freshCell)) >>= f) cells asked none := by
  rcases hf with ⟨outcome, after, hasks, hmade⟩
  refine ⟨outcome, after, (asks_fresh make cells).bind hasks, ?_⟩
  intro s heq
  refine Or.inr ⟨rfl, ?_⟩
  rcases hmade s heq with hsome | ⟨_hnone, hnew⟩
  · rcases hshared s hsome with ⟨rfl, rfl⟩
    exact (new_allocate (hcell _)).unasked hasks
  · apply hnew.mono
    rw [size_allocate]
    exact Nat.le_succ _

theorem Ready.making {cells : Cells α} {s : Sequence α} (h : s.Ready cells)
    {f : List α -> Action α (Sequence α)} {later : List (Sequence α)}
    {shared : Option (Sequence α)}
    (hf : AsksMaking (f (cells.read s).1) (cells.read s).2 later shared) :
    AsksMaking (Action.elements s >>= f) cells (chained [s] ++ later) shared := by
  rcases hf with ⟨outcome, after, hasks, hmade⟩
  refine ⟨outcome, after, h.elements.bind hasks, ?_⟩
  intro t heq
  exact (hmade t heq).imp_right fun hnew => ⟨hnew.1, hnew.2.mono (size_le_read cells s)⟩

/-! ## Joining sequences -/

theorem prependEach_asks {cells : Cells α} {parts : List (Sequence α)}
    (hparts : forall part, part ∈ parts -> part.Ready cells) (s : Sequence α) :
    AsksMaking (s.prependEach parts) cells (chained parts)
      (if parts.isEmpty then some s else none) := by
  induction parts generalizing cells s with
  | nil =>
      exact asksMaking_shared s cells
  | cons part rest ih =>
      rcases List.forall_mem_cons.mp hparts with ⟨hpart, hrest⟩
      rw [← List.singleton_append, chained_append]
      apply hpart.making
      refine AsksMaking.after_fresh _ (fun _ => rfl) (ih ?_ _) ?_
      · intro part hmem
        apply (hrest part hmem).mono
        rw [size_allocate, Cells.size_read]
        exact Nat.le_succ _
      · intro t hshared
        cases rest with
        | nil =>
            cases hshared
            exact ⟨rfl, rfl⟩
        | cons part rest =>
            cases hshared

def parts (s : Sequence α) (others : List (Sequence α)) : List (Sequence α) :=
  ((s :: others).filter fun part => !part.isEmpty).reverse

theorem concat_asks {cells : Cells α} {s : Sequence α} {others : List (Sequence α)}
    (hready : forall part, part ∈ s :: others -> part.Ready cells) :
    AsksMaking (s.concat others) cells (chained (s.parts others).tail)
      (if (s.parts others).tail.isEmpty then (s.parts others).head? else none) := by
  have hparts : forall part, part ∈ s.parts others -> part.Ready cells := by
    intro part hpart
    exact hready part (List.mem_of_mem_filter (List.mem_reverse.mp hpart))
  unfold parts at hparts ⊢
  unfold Sequence.concat
  cases hcases : ((s :: others).filter fun part => !part.isEmpty).reverse with
  | nil =>
      exact asksMaking_fresh (fun _ => rfl) cells
  | cons final earlier =>
      rw [hcases] at hparts
      exact prependEach_asks (fun part hpart => hparts part (List.mem_cons_of_mem _ hpart)) final

/-! ## Taking elements away -/

def shortened (s : Sequence α) (front : List α) (cell : CellId) : Sequence α :=
  { s with front := front, frontLength := s.frontLength - 1, cell := cell }

def remainder (s : Sequence α) (front : List α) (cell : CellId) : Sequence α :=
  { front := front, frontLength := s.length - 1, back := [], backLength := 0, cell := cell }

/-- What is left when the front chain is gone, if the cells given out on the way start here. -/
def exhausted (s : Sequence α) (next : CellId) : Sequence α :=
  match s.front with
  | [] => s
  | _ :: front =>
      { s with front := [], frontLength := s.frontLength - s.front.length,
               cell := next + front.length }

theorem exhausted_of_no_front {s : Sequence α} (hfront : s.front = []) (next : CellId) :
    s.exhausted next = s := by
  unfold exhausted
  rw [hfront]

theorem exhausted_of_front {s : Sequence α} {x : α} {front : List α} (hfront : s.front = x :: front)
    (next : CellId) :
    s.exhausted next = (s.shortened front next).exhausted (next + 1) := by
  unfold exhausted shortened
  rw [hfront]
  cases front with
  | nil =>
      rfl
  | cons y front =>
      simp only [List.length_cons, mk.injEq, true_and]
      constructor
      · omega
      · exact Nat.add_right_comm next front.length 1

theorem counted_shortened {s : Sequence α} (h : s.Counted) {x : α} {front : List α}
    (hfront : s.front = x :: front) (cell : CellId) :
    (s.shortened front cell).Counted :=
  ⟨by simp [shortened, h.1, hfront], h.2⟩

theorem rest_of_front {s : Sequence α} {x : α} {front : List α} (hfront : s.front = x :: front) :
    s.rest = do return s.shortened front (← Action.freshCell) := by
  unfold Sequence.rest
  rw [hfront]
  rfl

theorem drop_succ_of_no_front {s : Sequence α} (hfront : s.front = []) (n : Nat) :
    s.drop (n + 1) = Action.elements s >>= fun elements =>
      match elements with
      | _ :: front =>
          (do return s.remainder front (← Action.freshCell)) >>= fun shorter : Sequence α =>
            shorter.drop n
      | [] => Action.fail (.emptyCollection .rest) := by
  show (s.rest >>= fun shorter => shorter.drop n) = _
  unfold Sequence.rest
  rw [hfront]
  dsimp only
  rw [bind_assoc]
  congr 1
  funext elements
  cases elements <;> rfl

theorem eq_of_shared {s t : Sequence α} {n : Nat}
    (hshared : (if n = 0 then some s else none) = some t) :
    t = s ∧ n = 0 := by
  by_cases hn : n = 0
  · rw [if_pos hn] at hshared
    exact ⟨(Option.some.inj hshared).symm, hn⟩
  · rw [if_neg hn] at hshared
    cases hshared

theorem drop_asks_ordered {s : Sequence α} (hback : s.back = []) (n : Nat) (cells : Cells α) :
    AsksMaking (s.drop n) cells [] (if n = 0 then some s else none) := by
  induction n generalizing s cells with
  | zero =>
      exact asksMaking_shared s cells
  | succ n ih =>
      cases hfront : s.front with
      | cons x front =>
          have hshortened : (s.shortened front cells.chains.size).back = [] := hback
          unfold Sequence.drop
          rw [rest_of_front hfront]
          apply AsksMaking.after_fresh _ (fun _ => rfl) (ih hshortened _)
          exact fun t hshared => ⟨(eq_of_shared hshared).1, rfl⟩
      | nil =>
          rw [drop_succ_of_no_front hfront]
          refine ⟨.error (.emptyCollection .rest), cells, Action.Asks.ordered hback ?_, ?_⟩
          · rw [hfront]
            exact Action.Asks.fail _ cells
          · intro t heq
            cases heq

theorem Ready.drop {cells : Cells α} {s : Sequence α} (h : s.Ready cells) (n : Nat) :
    AsksMaking (s.drop n) cells
      (chained (if s.front.length < n then [s.exhausted cells.chains.size] else []))
      (if n = 0 then some s else none) := by
  induction n generalizing s cells with
  | zero =>
      exact asksMaking_shared s cells
  | succ n ih =>
      cases hfront : s.front with
      | cons x front =>
          -- each element taken from the front chain costs one cell, which nothing asks for
          have hready : (s.shortened front cells.chains.size).Ready cells.allocate.2 :=
            ⟨counted_shortened h.counted hfront _, (new_allocate rfl).given⟩
          rw [exhausted_of_front hfront, ← size_allocate]
          unfold Sequence.drop
          rw [rest_of_front hfront]
          simp only [List.length_cons, Nat.add_lt_add_iff_right]
          apply AsksMaking.after_fresh _ (fun _ => rfl) (ih hready)
          intro t hshared
          rcases eq_of_shared hshared with ⟨rfl, rfl⟩
          exact ⟨rfl, rfl⟩
      | nil =>
          rw [exhausted_of_no_front hfront, drop_succ_of_no_front hfront]
          show AsksMaking _ cells (chained [s]) none
          rw [← (chained [s]).append_nil]
          apply h.making
          cases (cells.read s).1 with
          | nil =>
              refine ⟨_, _, Action.Asks.fail _ _, ?_⟩
              intro t heq
              cases heq
          | cons x front =>
              apply AsksMaking.after_fresh _ (fun _ => rfl) (drop_asks_ordered rfl n _)
              exact fun t hshared => ⟨(eq_of_shared hshared).1, rfl⟩

theorem Ready.rest {cells : Cells α} {s : Sequence α} (h : s.Ready cells) :
    AsksMaking s.rest cells (chained (if s.front.isEmpty then [s] else [])) none := by
  have hrest : s.rest = s.drop 1 :=
    (bind_pure s.rest).symm
  have hasks := h.drop 1
  rw [← hrest] at hasks
  cases hfront : s.front with
  | cons x front =>
      rw [hfront] at hasks
      exact hasks
  | nil =>
      rw [hfront, exhausted_of_no_front hfront] at hasks
      exact hasks

end Sequence

end ValueStore
