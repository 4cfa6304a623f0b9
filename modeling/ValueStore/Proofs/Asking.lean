import ValueStore.Proofs.Stock

/-!
# What is asked for, and what is joined

An action that is carried out asks for the elements of sequences, one after the other.
Sequences without a back chain are in order already. Of the others the first that names
a cell has its chains joined, which is logged; the cell then answers for all later ones.
So the log can be read off the sequences asked for, and no cell is ever filled twice.
-/

namespace ValueStore

variable {α β γ : Type}

namespace Action

/-- The action answers or is refused at once, and neither reads nor notes anything. -/
inductive Still : Action α β -> Prop where
  | done (answer : β) : Still (done answer)
  | fail (error : Error) : Still (fail error)

theorem Still.plain {Known : Sequence α -> Prop} {x : Action α β} (hx : x.Still) :
    x.Plain Known := by
  cases hx with
  | done answer =>
      exact plain_done answer
  | fail error =>
      exact plain_fail error

theorem Still.bind {x : Action α β} {f : β -> Action α γ} (hx : x.Still)
    (hf : forall b, (f b).Still) :
    (x >>= f).Still := by
  cases hx with
  | done answer =>
      exact hf answer
  | fail error =>
      exact Still.fail error

theorem Still.recover {x : Action α β} {onError : Error -> Action α β} (hx : x.Still)
    (honError : forall error, (onError error).Still) :
    (x.recover onError).Still := by
  cases hx with
  | done answer =>
      exact Still.done answer
  | fail error =>
      exact honError error

theorem closed_still :
    Closed fun _ (x : Action α _) => x.Still where
  done := Still.done
  bind := Still.bind

/-! ## Sequences asked for -/

/--
Carrying the action out against the cells asks for the elements of these sequences, in this order,
ends with this outcome and leaves these cells. Only sequences with a back chain are listed; they
count their chains rightly, and the cells they name have been given out.
-/
inductive Asks : Action α β -> Cells α -> List (Sequence α) -> Except Error β -> Cells α ->
    Prop where
  | done (answer : β) (cells : Cells α) : Asks (done answer) cells [] (.ok answer) cells
  | fail (error : Error) (cells : Cells α) : Asks (fail error) cells [] (.error error) cells
  | ordered {s : Sequence α} {next : List α -> Action α β} {cells after : Cells α}
      {asked : List (Sequence α)} {outcome : Except Error β} :
      s.back = [] -> Asks (next s.front) cells asked outcome after ->
      Asks (read s next) cells asked outcome after
  | chained {s : Sequence α} {next : List α -> Action α β} {cells after : Cells α}
      {asked : List (Sequence α)} {outcome : Except Error β} :
      s.back ≠ [] -> s.Counted -> s.cell < cells.chains.size ->
      Asks (next (cells.read s).1) (cells.read s).2 asked outcome after ->
      Asks (read s next) cells (s :: asked) outcome after
  | fresh {next : CellId -> Action α β} {cells after : Cells α} {asked : List (Sequence α)}
      {outcome : Except Error β} :
      Asks (next cells.allocate.1) cells.allocate.2 asked outcome after ->
      Asks (fresh next) cells asked outcome after

theorem Asks.run_eq {x : Action α β} {cells after : Cells α} {asked : List (Sequence α)}
    {outcome : Except Error β} (h : Asks x cells asked outcome after) :
    Cells.run x cells = (outcome, after) := by
  induction h with
  | done answer cells =>
      rfl
  | fail error cells =>
      rfl
  | ordered hback _hnext ih =>
      simpa [Cells.run, Cells.read, hback] using ih
  | chained _hback _hcounted _hgiven _hnext ih =>
      exact ih
  | fresh _hnext ih =>
      exact ih

theorem Asks.size_le {x : Action α β} {cells after : Cells α} {asked : List (Sequence α)}
    {outcome : Except Error β} (h : Asks x cells asked outcome after) :
    cells.chains.size ≤ after.chains.size := by
  have hsize := Cells.size_le_run x cells
  rw [h.run_eq] at hsize
  exact hsize

theorem Asks.bind {x : Action α β} {f : β -> Action α γ} {cells between after : Cells α}
    {asked later : List (Sequence α)} {b : β} {outcome : Except Error γ}
    (hx : Asks x cells asked (.ok b) between) (hf : Asks (f b) between later outcome after) :
    Asks (x >>= f) cells (asked ++ later) outcome after := by
  change Asks (x.bind f) cells (asked ++ later) outcome after
  generalize hanswer : Except.ok b = answer at hx
  induction hx with
  | done answer cells =>
      cases hanswer
      exact hf
  | fail error cells =>
      cases hanswer
  | ordered hback _hnext ih =>
      exact Asks.ordered hback (ih hf hanswer)
  | chained hback hcounted hgiven _hnext ih =>
      exact Asks.chained hback hcounted hgiven (ih hf hanswer)
  | fresh _hnext ih =>
      exact Asks.fresh (ih hf hanswer)

theorem Asks.bind_refused {x : Action α β} {cells after : Cells α} {asked : List (Sequence α)}
    {error : Error} (hx : Asks x cells asked (.error error) after) (f : β -> Action α γ) :
    Asks (x >>= f) cells asked (.error error) after := by
  change Asks (x.bind f) cells asked (.error error) after
  generalize hanswer : Except.error error = answer at hx
  induction hx with
  | done answer cells =>
      cases hanswer
  | fail error cells =>
      cases hanswer
      exact Asks.fail _ cells
  | ordered hback _hnext ih =>
      exact Asks.ordered hback (ih hanswer)
  | chained hback hcounted hgiven _hnext ih =>
      exact Asks.chained hback hcounted hgiven (ih hanswer)
  | fresh _hnext ih =>
      exact Asks.fresh (ih hanswer)

theorem Asks.map {x : Action α β} {cells after : Cells α} {asked : List (Sequence α)}
    {outcome : Except Error β} (hx : Asks x cells asked outcome after) (f : β -> γ) :
    Asks (x >>= fun b => pure (f b)) cells asked (outcome.map f) after := by
  cases outcome with
  | error error =>
      exact hx.bind_refused _
  | ok b =>
      rw [← asked.append_nil]
      exact hx.bind (Asks.done (f b) after)

theorem Asks.recover {x : Action α β} {cells after : Cells α} {asked : List (Sequence α)}
    {outcome : Except Error β} (hx : Asks x cells asked outcome after) (f : Error -> β) :
    Asks (x.recover fun error => pure (f error)) cells asked (outcome.tryCatch fun error =>
      .ok (f error)) after := by
  induction hx with
  | done answer cells =>
      exact Asks.done answer cells
  | fail error cells =>
      exact Asks.done (f error) cells
  | ordered hback _hnext ih =>
      exact Asks.ordered hback ih
  | chained hback hcounted hgiven _hnext ih =>
      exact Asks.chained hback hcounted hgiven ih
  | fresh _hnext ih =>
      exact Asks.fresh ih

theorem Still.asks {x : Action α β} (hx : x.Still) (cells : Cells α) :
    Asks x cells [] x.eval cells := by
  cases hx with
  | done answer =>
      exact Asks.done answer cells
  | fail error =>
      exact Asks.fail error cells

end Action

/-! ## Chains joined -/

def Sequence.joining (s : Sequence α) : Event :=
  .joined s.front.length s.back.length

namespace Cells

def filled (cells : Cells α) : List CellId :=
  (List.range cells.chains.size).filter fun cell => (cells.kept? cell).isSome

/--
Of sequences asked for one after the other, those that have their chains joined then: the ones
with a back chain whose cell is not filled yet.
-/
def joinings (filled : List CellId) : List (Sequence α) -> List (Sequence α)
  | [] => []
  | s :: rest =>
      if s.back.isEmpty || filled.contains s.cell then
        joinings filled rest
      else
        s :: joinings (s.cell :: filled) rest

theorem mem_filled {cells : Cells α} {cell : CellId} :
    cell ∈ cells.filled ↔ (cells.kept? cell).isSome = true := by
  unfold filled
  rw [List.mem_filter, List.mem_range]
  constructor
  · exact And.right
  · intro hkept
    refine ⟨?_, hkept⟩
    by_contra hsize
    rw [kept?_of_size_le (Nat.le_of_not_lt hsize)] at hkept
    cases hkept

theorem joinings_congr {filled filled' : List CellId}
    (heq : forall cell, cell ∈ filled ↔ cell ∈ filled') (asked : List (Sequence α)) :
    joinings filled asked = joinings filled' asked := by
  induction asked generalizing filled filled' with
  | nil =>
      rfl
  | cons s rest ih =>
      have hcontains : filled.contains s.cell = filled'.contains s.cell := by
        rw [Bool.eq_iff_iff, List.contains_iff_mem, List.contains_iff_mem, heq]
      have hnext : forall cell, cell ∈ s.cell :: filled ↔ cell ∈ s.cell :: filled' := by
        intro cell
        rw [List.mem_cons, List.mem_cons, heq]
      rw [joinings, joinings, hcontains, ih heq, ih hnext]

theorem joinings_filter_back (filled : List CellId) (asked : List (Sequence α)) :
    joinings filled (asked.filter fun s => !s.back.isEmpty) = joinings filled asked := by
  induction asked generalizing filled with
  | nil =>
      rfl
  | cons s rest ih =>
      cases hback : s.back.isEmpty with
      | true =>
          rw [List.filter_cons_of_neg (by simp [hback]), joinings, hback, ih]
          rfl
      | false =>
          rw [List.filter_cons_of_pos (by simp [hback]), joinings, joinings, ih, ih]

/-- No two sequences that are joined name the same cell, nor one that was filled before. -/
theorem joinings_apart (filled : List CellId) (asked : List (Sequence α)) :
    ((joinings filled asked).map Sequence.cell).Nodup ∧
      forall s, s ∈ joinings filled asked -> s.cell ∉ filled := by
  induction asked generalizing filled with
  | nil =>
      exact ⟨List.nodup_nil, List.forall_mem_nil _⟩
  | cons s rest ih =>
      unfold joinings
      split
      · exact ih filled
      · rename_i hopen
        rw [Bool.or_eq_true, not_or, List.contains_iff_mem] at hopen
        rcases ih (s.cell :: filled) with ⟨hnodup, hapart⟩
        constructor
        · rw [List.map_cons, List.nodup_cons]
          refine ⟨?_, hnodup⟩
          intro hmem
          rcases List.mem_map.mp hmem with ⟨t, ht, hcell⟩
          exact hapart t ht (hcell ▸ List.mem_cons_self)
        · rw [List.forall_mem_cons]
          exact ⟨hopen.2, fun t ht hfilled => hapart t ht (List.mem_cons_of_mem _ hfilled)⟩

theorem read_of_kept {cells : Cells α} {s : Sequence α} (hback : s.back ≠ []) {elements : List α}
    (hkept : cells.kept? s.cell = some elements) :
    cells.read s = (elements, cells) := by
  unfold read
  rw [if_neg (by simpa using hback), hkept]

theorem read_of_not_kept {cells : Cells α} {s : Sequence α} (hback : s.back ≠ [])
    (hcounted : s.Counted) (hkept : cells.kept? s.cell = none) :
    cells.read s = (s.toList,
      { chains := cells.chains.setIfInBounds s.cell (some s.toList),
        events := cells.events.push s.joining }) := by
  unfold read
  rw [if_neg (by simpa using hback), hkept, Sequence.joining, ← hcounted.1, ← hcounted.2]

theorem mem_filled_fill {cells : Cells α} {s : Sequence α} (hgiven : s.cell < cells.chains.size)
    (events : Array Event) (cell : CellId) :
    cell ∈ ({ chains := cells.chains.setIfInBounds s.cell (some s.toList),
              events := events } : Cells α).filled ↔ cell ∈ s.cell :: cells.filled := by
  rw [List.mem_cons, mem_filled, mem_filled]
  unfold kept?
  rw [Array.getElem?_setIfInBounds]
  split
  · rename_i hcell
    simp [← hcell, hgiven]
  · rename_i hcell
    simp [Ne.symm hcell]

end Cells

namespace Action

/-- The log grows by the sequences that are joined, among those asked for. -/
theorem Asks.log {x : Action α β} {cells after : Cells α} {asked : List (Sequence α)}
    {outcome : Except Error β} (h : Asks x cells asked outcome after) :
    after.events.toList =
      cells.events.toList ++ (Cells.joinings cells.filled asked).map Sequence.joining := by
  induction h with
  | done answer cells =>
      exact (List.append_nil _).symm
  | fail error cells =>
      exact (List.append_nil _).symm
  | ordered _hback _hnext ih =>
      exact ih
  | fresh _hnext ih =>
      rename_i cells after asked outcome
      have hfilled : forall cell, cell ∈ cells.allocate.2.filled ↔ cell ∈ cells.filled := by
        intro cell
        rw [Cells.mem_filled, Cells.mem_filled, Cells.kept?_allocate]
      rw [ih, Cells.joinings_congr hfilled]
      rfl
  | chained hback hcounted hgiven _hnext ih =>
      rename_i s next cells after asked outcome
      -- either way the cell is filled for what is asked for later
      cases hkept : cells.kept? s.cell with
      | some elements =>
          have hfilled : s.cell ∈ cells.filled := by
            rw [Cells.mem_filled, hkept]
            rfl
          rw [Cells.read_of_kept hback hkept] at ih
          rw [ih, Cells.joinings, List.contains_iff_mem.mpr hfilled, Bool.or_true, if_pos rfl]
      | none =>
          have hopen : (s.back.isEmpty || cells.filled.contains s.cell) = false := by
            rw [Bool.or_eq_false_iff, ← Bool.not_eq_true, ← Bool.not_eq_true,
              List.isEmpty_iff, List.contains_iff_mem, Cells.mem_filled, hkept]
            exact ⟨hback, Bool.false_ne_true⟩
          rw [Cells.read_of_not_kept hback hcounted hkept] at ih
          rw [ih, Cells.joinings_congr (Cells.mem_filled_fill hgiven _), Cells.joinings, hopen]
          simp

theorem Asks.kept {x : Action α β} {cells after : Cells α} {asked : List (Sequence α)}
    {outcome : Except Error β} (h : Asks x cells asked outcome after) {cell : CellId}
    {elements : List α} (hkept : after.kept? cell = some elements) :
    cells.kept? cell = some elements ∨
      exists s, s ∈ asked ∧ s.cell = cell ∧ elements = s.toList := by
  induction h with
  | done answer cells =>
      exact Or.inl hkept
  | fail error cells =>
      exact Or.inl hkept
  | ordered _hback _hnext ih =>
      exact ih hkept
  | fresh _hnext ih =>
      have hbefore := ih hkept
      rw [Cells.kept?_allocate] at hbefore
      exact hbefore
  | chained hback hcounted _hgiven _hnext ih =>
      rename_i s next cells after asked outcome
      rcases ih hkept with hread | ⟨t, ht, hcell, helements⟩
      · cases hfilled : cells.kept? s.cell with
        | some joined =>
            rw [Cells.read_of_kept hback hfilled] at hread
            exact Or.inl hread
        | none =>
            rw [Cells.read_of_not_kept hback hcounted hfilled] at hread
            rcases Cells.kept?_setIfInBounds hread with ⟨hcell, helements⟩ | hbefore
            · exact Or.inr ⟨s, List.mem_cons_self, hcell.symm, helements⟩
            · exact Or.inl hbefore
      · exact Or.inr ⟨t, List.mem_cons_of_mem _ ht, hcell, helements⟩

end Action

end ValueStore
