import ValueStore.Cells
import ValueStore.Proofs.Action

/-!
# What cells do not change

Cells only save work: as long as what a cell keeps is what every sequence that names it
stands for, an action carried out against the cells answers as it plainly means. Carrying
it out fills cells with the elements of the sequences read, so the cells stay that way.
-/

namespace ValueStore

variable {α β γ : Type}

namespace Cells

/--
What the cells keep and may come to keep is right for the known sequences. Only those with a back
chain matter, since the others never touch their cell.
-/
structure Faithful (cells : Cells α) (Known : Sequence α -> Prop) : Prop where
  kept : forall s elements, Known s -> s.back ≠ [] ->
    cells.kept? s.cell = some elements -> elements = s.toList
  shared : forall s t, Known s -> Known t -> s.back ≠ [] -> t.back ≠ [] ->
    s.cell = t.cell -> s.toList = t.toList

theorem faithful_empty {Known : Sequence α -> Prop}
    (happart : forall s t, Known s -> Known t -> s.cell = t.cell -> s = t) :
    (empty : Cells α).Faithful Known where
  kept := by
    intro s elements _hs _hback hkept
    simp [empty, kept?] at hkept
  shared := fun s t hs ht _ _ hcell => congrArg Sequence.toList (happart s t hs ht hcell)

theorem Faithful.log {cells : Cells α} {Known : Sequence α -> Prop}
    (h : cells.Faithful Known) (event : Event) :
    (cells.log event).Faithful Known :=
  ⟨h.kept, h.shared⟩

theorem kept?_setIfInBounds {cells : Cells α} {filled cell : CellId} {joined elements : List α}
    {events : Array Event}
    (hkept : ({ chains := cells.chains.setIfInBounds filled (some joined),
                events := events } : Cells α).kept? cell = some elements) :
    (cell = filled ∧ elements = joined) ∨ cells.kept? cell = some elements := by
  unfold kept? at hkept ⊢
  rw [Array.getElem?_setIfInBounds] at hkept
  split at hkept
  · rename_i hcell
    split at hkept
    · exact Or.inl ⟨hcell.symm, (Option.some.inj hkept).symm⟩
    · cases hkept
  · exact Or.inr hkept

theorem run_recover (x : Action α β) (onError : Error -> Action α β) (cells : Cells α) :
    run (x.recover onError) cells =
      match run x cells with
      | (.ok b, after) => (.ok b, after)
      | (.error e, after) => run (onError e) after := by
  induction x generalizing cells with
  | done answer =>
      rfl
  | fail error =>
      rfl
  | read s next ih =>
      exact ih (cells.read s).1 (cells.read s).2
  | fresh next ih =>
      exact ih cells.allocate.1 cells.allocate.2
  | note event next ih =>
      exact ih (cells.log event)

theorem Faithful.read {cells : Cells α} {Known : Sequence α -> Prop}
    (h : cells.Faithful Known) {s : Sequence α} (hs : Known s) :
    (cells.read s).1 = s.toList ∧ (cells.read s).2.Faithful Known := by
  unfold Cells.read
  by_cases hback : s.back = []
  · simp [hback, Sequence.toList, h]
  · rw [if_neg (by simpa using hback)]
    cases hkept : cells.kept? s.cell with
    | some elements =>
        exact ⟨h.kept s elements hs hback hkept, h⟩
    | none =>
        refine ⟨rfl, ?_, h.shared⟩
        intro t elements ht htback htkept
        rcases kept?_setIfInBounds htkept with ⟨hcell, rfl⟩ | htkept
        · exact h.shared s t hs ht hback htback hcell.symm
        · exact h.kept t elements ht htback htkept

end Cells

namespace Action

/-- Against cells faithful to the known sequences the action answers as it plainly means. -/
def Plain (Known : Sequence α -> Prop) (x : Action α β) : Prop :=
  forall cells : Cells α, cells.Faithful Known ->
    (Cells.run x cells).1 = x.eval ∧ (Cells.run x cells).2.Faithful Known

theorem plain_done {Known : Sequence α -> Prop} (answer : β) :
    (done answer : Action α β).Plain Known :=
  fun _ hcells => ⟨rfl, hcells⟩

theorem plain_fail {Known : Sequence α -> Prop} (error : Error) :
    (fail error : Action α β).Plain Known :=
  fun _ hcells => ⟨rfl, hcells⟩

theorem plain_elements {Known : Sequence α -> Prop} {s : Sequence α} (hs : Known s) :
    (elements s).Plain Known := by
  intro cells hcells
  rcases hcells.read hs with ⟨hread, hfaithful⟩
  exact ⟨congrArg Except.ok hread, hfaithful⟩

theorem plain_log {Known : Sequence α -> Prop} (event : Event) :
    (log event : Action α Unit).Plain Known :=
  fun _ hcells => ⟨rfl, hcells.log event⟩

theorem Plain.bind {Known : Sequence α -> Prop} {x : Action α β} {f : β -> Action α γ}
    (hx : x.Plain Known) (hf : forall b, x.eval = .ok b -> (f b).Plain Known) :
    (x >>= f).Plain Known := by
  intro cells hcells
  rcases hx cells hcells with ⟨hanswer, hafter⟩
  rw [Cells.run_bind, eval_bind, ← hanswer]
  cases hrun : Cells.run x cells with
  | mk answer after =>
      rw [hrun] at hanswer hafter
      cases answer with
      | error error =>
          exact ⟨rfl, hafter⟩
      | ok b =>
          exact hf b hanswer.symm after hafter

theorem Plain.recover {Known : Sequence α -> Prop} {x : Action α β}
    {onError : Error -> Action α β} (hx : x.Plain Known)
    (honError : forall error, x.eval = .error error -> (onError error).Plain Known) :
    (x.recover onError).Plain Known := by
  intro cells hcells
  rcases hx cells hcells with ⟨hanswer, hafter⟩
  rw [Cells.run_recover, eval_recover, ← hanswer]
  cases hrun : Cells.run x cells with
  | mk answer after =>
      rw [hrun] at hanswer hafter
      cases answer with
      | error error =>
          exact honError error hanswer.symm after hafter
      | ok b =>
          exact ⟨rfl, hafter⟩

theorem closed_plain (Known : Sequence α -> Prop) :
    Closed fun _ (x : Action α _) => x.Plain Known where
  done := plain_done
  bind := fun hx hf => hx.bind fun b _ => hf b

theorem plain_allM {Known : Sequence α -> Prop} {test : β -> Action α Bool} {elements : List β}
    (htest : forall x, x ∈ elements -> (test x).Plain Known) :
    (allM test elements).Plain Known :=
  (closed_plain Known).allM htest

theorem plain_mapM {Known : Sequence α -> Prop} {f : β -> Action α γ} {xs : List β}
    (hf : forall x, x ∈ xs -> (f x).Plain Known) :
    (xs.mapM f).Plain Known :=
  (closed_plain Known).mapM hf

end Action

end ValueStore
