import ValueStore.Proofs.Cells

/-!
# Cells given out on the way

An action may ask for fresh cells and answer a sequence that names one. The cells stay
right for such a sequence too as long as every sequence known before names a cell that
was given out before: the fresh one is nobody else's and keeps nothing yet.
-/

namespace ValueStore

variable {α β γ : Type}

namespace Cells

/--
Faithful cells, among which are those that the known sequences name. As before, only sequences
with a back chain matter.
-/
structure Stocked (cells : Cells α) (Known : Sequence α -> Prop) : Prop where
  faithful : cells.Faithful Known
  given : forall s, Known s -> s.back ≠ [] -> s.cell < cells.chains.size

theorem stocked_none (cells : Cells α) :
    cells.Stocked fun _ => False where
  faithful := ⟨fun _ _ hs => hs.elim, fun _ _ hs => hs.elim⟩
  given := fun _ hs => hs.elim

theorem Stocked.mono {cells : Cells α} {Known Known' : Sequence α -> Prop}
    (h : cells.Stocked Known) (hknown : forall s, Known' s -> s.back ≠ [] -> Known s) :
    cells.Stocked Known' where
  faithful :=
    { kept := fun s elements hs hback => h.faithful.kept s elements (hknown s hs hback) hback
      shared := fun s t hs ht hsback htback =>
        h.faithful.shared s t (hknown s hs hsback) (hknown t ht htback) hsback htback }
  given := fun s hs hback => h.given s (hknown s hs hback) hback

theorem kept?_allocate (cells : Cells α) (cell : CellId) :
    cells.allocate.2.kept? cell = cells.kept? cell := by
  unfold kept? allocate
  rw [Array.getElem?_push]
  split
  · rename_i hcell
    rw [hcell, Array.getElem?_size]
    rfl
  · rfl

theorem kept?_of_size_le {cells : Cells α} {cell : CellId} (hsize : cells.chains.size ≤ cell) :
    cells.kept? cell = none := by
  unfold kept?
  rw [Array.getElem?_eq_none hsize]
  rfl

/-- After a cell was given out, a sequence that names it may be known as well. -/
theorem Stocked.allocate {cells : Cells α} {Known : Sequence α -> Prop} (h : cells.Stocked Known)
    {s : Sequence α} (hcell : s.cell = cells.allocate.1) :
    cells.allocate.2.Stocked fun t => Known t ∨ t = s := by
  have hapart : forall t, Known t -> t.back ≠ [] -> t.cell ≠ s.cell :=
    fun t ht hback => hcell ▸ Nat.ne_of_lt (h.given t ht hback)
  constructor
  · constructor
    · intro t elements ht hback hkept
      rw [kept?_allocate] at hkept
      rcases ht with ht | rfl
      · exact h.faithful.kept t elements ht hback hkept
      · rw [kept?_of_size_le (Nat.le_of_eq hcell.symm)] at hkept
        cases hkept
    · intro t u ht hu htback huback heq
      rcases ht with ht | rfl
      · rcases hu with hu | rfl
        · exact h.faithful.shared t u ht hu htback huback heq
        · exact (hapart t ht htback heq).elim
      · rcases hu with hu | rfl
        · exact (hapart u hu huback heq.symm).elim
        · rfl
  · intro t ht hback
    show t.cell < (cells.chains.push none).size
    rw [Array.size_push]
    rcases ht with ht | rfl
    · exact Nat.lt_succ_of_lt (h.given t ht hback)
    · exact hcell ▸ Nat.lt_succ_self _

theorem size_read (cells : Cells α) (s : Sequence α) :
    (cells.read s).2.chains.size = cells.chains.size := by
  unfold read
  split
  · rfl
  · split
    · rfl
    · exact Array.size_setIfInBounds

theorem size_le_run (x : Action α β) (cells : Cells α) :
    cells.chains.size ≤ (run x cells).2.chains.size := by
  induction x generalizing cells with
  | done answer =>
      exact Nat.le_refl _
  | fail error =>
      exact Nat.le_refl _
  | read s next ih =>
      rw [← size_read cells s]
      exact ih (cells.read s).1 (cells.read s).2
  | fresh next ih =>
      have hallocate : cells.chains.size ≤ cells.allocate.2.chains.size := by
        show cells.chains.size ≤ (cells.chains.push none).size
        rw [Array.size_push]
        exact Nat.le_succ _
      exact Nat.le_trans hallocate (ih cells.allocate.1 cells.allocate.2)
  | note event next ih =>
      exact ih (cells.log event)

end Cells

namespace Action

inductive Mirrored (Known : Sequence α -> Prop) (Related : β -> γ -> Prop)
    (New : β -> Sequence α -> Prop) : Except Error β × Cells α -> Except Error γ -> Prop where
  | ok {b : β} {c : γ} {after : Cells α} (related : Related b c)
      (stocked : after.Stocked fun s => Known s ∨ New b s) :
      Mirrored Known Related New (.ok b, after) (.ok c)
  | error {error : Error} {after : Cells α} (stocked : after.Stocked Known) :
      Mirrored Known Related New (.error error, after) (.error error)

/--
Against any cells stocked for the known sequences the action answers what is expected, or is
refused as expected, and the cells are then stocked for what its answer adds to the known ones.
-/
def Mirrors (Known : Sequence α -> Prop) (x : Action α β) (expected : Except Error γ)
    (Related : β -> γ -> Prop) (New : β -> Sequence α -> Prop) : Prop :=
  forall cells : Cells α, cells.Stocked Known ->
    Mirrored Known Related New (Cells.run x cells) expected

theorem Mirrors.answers {Known : Sequence α -> Prop} {x : Action α β} {c : γ}
    {Related : β -> γ -> Prop} {New : β -> Sequence α -> Prop}
    (hx : x.Mirrors Known (.ok c) Related New) {cells : Cells α} (hcells : cells.Stocked Known) :
    exists b after, Cells.run x cells = (.ok b, after) ∧ Related b c ∧
      after.Stocked fun s => Known s ∨ New b s := by
  have hrun := hx cells hcells
  generalize Cells.run x cells = outcome at hrun
  cases hrun with
  | ok hrelated hstocked =>
      exact ⟨_, _, rfl, hrelated, hstocked⟩

theorem mirrors_ok {Known : Sequence α -> Prop} {Related : β -> γ -> Prop}
    {New : β -> Sequence α -> Prop} {b : β} {c : γ} (hrelated : Related b c)
    (hnew : forall s, New b s -> s.back ≠ [] -> Known s) :
    (pure b : Action α β).Mirrors Known (.ok c) Related New := by
  intro cells hcells
  apply Mirrored.ok hrelated
  apply hcells.mono
  intro s hs hback
  rcases hs with hs | hs
  · exact hs
  · exact hnew s hs hback

theorem mirrors_fail {Known : Sequence α -> Prop} {Related : β -> γ -> Prop}
    {New : β -> Sequence α -> Prop} (error : Error) :
    (fail error : Action α β).Mirrors Known (.error error) Related New :=
  fun _ hcells => Mirrored.error hcells

theorem Plain.mirrors {Known : Sequence α -> Prop} {x : Action α β} (hx : x.Plain Known) :
    x.Mirrors Known x.eval Eq fun _ _ => False := by
  intro cells hcells
  have hafter : (Cells.run x cells).2.Stocked Known :=
    { faithful := (hx cells hcells.faithful).2
      given := fun s hs hback =>
        Nat.lt_of_lt_of_le (hcells.given s hs hback) (Cells.size_le_run x cells) }
  rw [← (hx cells hcells.faithful).1]
  cases hrun : Cells.run x cells with
  | mk answer after =>
      rw [hrun] at hafter
      cases answer with
      | error error =>
          exact Mirrored.error hafter
      | ok b =>
          exact Mirrored.ok rfl (hafter.mono fun s hs _hback => hs.resolve_right id)

theorem Mirrors.bind {β' γ' : Type} {Known : Sequence α -> Prop} {x : Action α β}
    {expected : Except Error γ} {Related : β -> γ -> Prop} {New : β -> Sequence α -> Prop}
    {f : β -> Action α β'} {g : γ -> Except Error γ'} {Related' : β' -> γ' -> Prop}
    {New' : β' -> Sequence α -> Prop} (hx : x.Mirrors Known expected Related New)
    (hf : forall b c, expected = .ok c -> Related b c ->
      (f b).Mirrors (fun s => Known s ∨ New b s) (g c) Related' New') :
    (x >>= f).Mirrors Known (expected >>= g) Related' New' := by
  intro cells hcells
  have hrun := hx cells hcells
  rw [Cells.run_bind]
  generalize Cells.run x cells = outcome at hrun
  cases hrun with
  | error hstocked =>
      exact Mirrored.error hstocked
  | ok hrelated hstocked =>
      rename_i b c after
      show Mirrored Known Related' New' (Cells.run (f b) after) (g c)
      have hnext := hf b c rfl hrelated after hstocked
      generalize Cells.run (f b) after = outcome at hnext
      generalize g c = expected at hnext
      cases hnext with
      | error hstocked =>
          exact Mirrored.error (hstocked.mono fun s hs _hback => Or.inl hs)
      | ok hrelated hstocked =>
          apply Mirrored.ok hrelated
          apply hstocked.mono
          intro s hs _hback
          exact hs.imp_left Or.inl

theorem Mirrors.recover {Known : Sequence α -> Prop} {x : Action α β}
    {onError : Error -> Action α β} {expected : Except Error γ} {g : Error -> Except Error γ}
    {Related : β -> γ -> Prop} {New : β -> Sequence α -> Prop}
    (hx : x.Mirrors Known expected Related New)
    (honError : forall error, (onError error).Mirrors Known (g error) Related New) :
    (x.recover onError).Mirrors Known (expected.tryCatch g) Related New := by
  intro cells hcells
  have hrun := hx cells hcells
  rw [Cells.run_recover]
  generalize Cells.run x cells = outcome at hrun
  cases hrun with
  | ok hrelated hstocked =>
      exact Mirrored.ok hrelated hstocked
  | error hstocked =>
      exact honError _ _ hstocked

end Action

end ValueStore
