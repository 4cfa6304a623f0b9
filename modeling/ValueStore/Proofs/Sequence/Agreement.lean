import ValueStore.Proofs.Cells
import ValueStore.Sequence.Operations

/-!
# Agreement of sequences

Two sequences that count their chains rightly agree exactly if their elements agree
one by one, however the elements are spread over the chains.
-/

namespace ValueStore

namespace Sequence

variable {α : Type}

theorem agree_eval_of_length_eq (f : α -> α -> Action α Bool) {left right : Sequence α}
    (hlength : left.length = right.length) :
    (left.agree f right).eval =
      (Action.allM (fun pair => f pair.1 pair.2) (left.toList.zip right.toList)).eval := by
  unfold agree
  rw [if_pos hlength]
  rfl

theorem agree_eval_of_length_ne (f : α -> α -> Action α Bool) {left right : Sequence α}
    (hlength : left.length ≠ right.length) :
    (left.agree f right).eval = .ok false := by
  unfold agree
  rw [if_neg hlength]
  rfl

theorem agree_eq_true_iff (f : α -> α -> Action α Bool) {left right : Sequence α}
    (hleft : left.Counted) (hright : right.Counted) :
    (left.agree f right).eval = .ok true ↔
      List.Forall₂ (fun x y => (f x y).eval = .ok true) left.toList right.toList := by
  rw [List.forall₂_iff_zip, ← length_eq_length_toList hleft, ← length_eq_length_toList hright]
  by_cases hlength : left.length = right.length
  · rw [agree_eval_of_length_eq f hlength, Action.allM_eq_true_iff]
    constructor
    · intro hall
      exact ⟨hlength, fun hmem => hall _ hmem⟩
    · intro hall pair hmem
      exact hall.2 hmem
  · rw [agree_eval_of_length_ne f hlength]
    constructor
    · intro heq
      cases heq
    · intro hall
      exact (hlength hall.1).elim

theorem forall₂_of_agree {f : α -> α -> Action α Bool} {R : α -> α -> Prop}
    {left right : Sequence α} (hleft : left.Counted) (hright : right.Counted)
    (hrelated : forall x, x ∈ left.toList -> forall y, y ∈ right.toList ->
      (f x y).eval = .ok true -> R x y)
    (hagree : (left.agree f right).eval = .ok true) :
    List.Forall₂ R left.toList right.toList := by
  rw [agree_eq_true_iff f hleft hright, List.forall₂_iff_get] at hagree
  rw [List.forall₂_iff_get]
  refine ⟨hagree.1, ?_⟩
  intro i hi hi'
  exact hrelated _ (List.get_mem _ _) _ (List.get_mem _ _) (hagree.2 i hi hi')

theorem agree_symm {f : α -> α -> Action α Bool} {left right : Sequence α}
    (hleft : left.Counted) (hright : right.Counted)
    (hsymm : forall x, x ∈ left.toList -> forall y, y ∈ right.toList ->
      (f x y).eval = .ok true -> (f y x).eval = .ok true)
    (hagree : (left.agree f right).eval = .ok true) :
    (right.agree f left).eval = .ok true := by
  rw [agree_eq_true_iff f hright hleft]
  exact (forall₂_of_agree hleft hright hsymm hagree).flip

theorem agree_trans {f : α -> α -> Action α Bool} {a b c : Sequence α}
    (ha : a.Counted) (hb : b.Counted) (hc : c.Counted)
    (htrans : forall x, x ∈ a.toList -> forall y, y ∈ b.toList -> forall z, z ∈ c.toList ->
      (f x y).eval = .ok true -> (f y z).eval = .ok true -> (f x z).eval = .ok true)
    (hab : (a.agree f b).eval = .ok true) (hbc : (b.agree f c).eval = .ok true) :
    (a.agree f c).eval = .ok true := by
  rw [agree_eq_true_iff f ha hb, List.forall₂_iff_get] at hab
  rw [agree_eq_true_iff f hb hc, List.forall₂_iff_get] at hbc
  rw [agree_eq_true_iff f ha hc, List.forall₂_iff_get]
  refine ⟨hab.1.trans hbc.1, ?_⟩
  intro i hi hi'
  have hmiddle : i < b.toList.length := hab.1 ▸ hi
  exact htrans _ (List.get_mem _ _) _ (List.get_mem _ _) _ (List.get_mem _ _)
    (hab.2 i hi hmiddle) (hbc.2 i hmiddle hi')

theorem agree_self_iff {f : α -> α -> Action α Bool} {s : Sequence α} (hs : s.Counted) :
    (s.agree f s).eval = .ok true ↔ forall x, x ∈ s.toList -> (f x x).eval = .ok true := by
  rw [agree_eq_true_iff f hs hs, List.forall₂_same]

theorem agree_congr {f g : α -> α -> Action α Bool} {left right : Sequence α}
    (heq : forall x, x ∈ left.toList -> forall y, y ∈ right.toList ->
      (f x y).eval = (g x y).eval) :
    (left.agree f right).eval = (left.agree g right).eval := by
  by_cases hlength : left.length = right.length
  · rw [agree_eval_of_length_eq f hlength, agree_eval_of_length_eq g hlength]
    apply Action.allM_congr
    intro pair hmem
    rcases List.of_mem_zip hmem with ⟨hx, hy⟩
    exact heq pair.1 hx pair.2 hy
  · rw [agree_eval_of_length_ne f hlength, agree_eval_of_length_ne g hlength]

theorem agree_answers {f : α -> α -> Action α Bool} {left right : Sequence α}
    (hanswers : forall x, x ∈ left.toList -> forall y, y ∈ right.toList ->
      exists answer, (f x y).eval = .ok answer) :
    exists answer, (left.agree f right).eval = .ok answer := by
  by_cases hlength : left.length = right.length
  · rw [agree_eval_of_length_eq f hlength]
    apply Action.allM_answers
    intro pair hmem
    rcases List.of_mem_zip hmem with ⟨hx, hy⟩
    exact hanswers pair.1 hx pair.2 hy
  · exact ⟨false, agree_eval_of_length_ne f hlength⟩

theorem agree_refused {f : α -> α -> Action α Bool} {left right : Sequence α} {error : Error}
    (herror : (left.agree f right).eval = .error error) :
    exists x y, x ∈ left.toList ∧ y ∈ right.toList ∧ (f x y).eval = .error error := by
  by_cases hlength : left.length = right.length
  · rw [agree_eval_of_length_eq f hlength] at herror
    rcases Action.allM_refused herror with ⟨⟨x, y⟩, hmem, hrefused⟩
    rcases List.of_mem_zip hmem with ⟨hx, hy⟩
    exact ⟨x, y, hx, hy, hrefused⟩
  · cases (agree_eval_of_length_ne f hlength).symm.trans herror

theorem plain_agree {Known : Sequence α -> Prop} {f : α -> α -> Action α Bool}
    {left right : Sequence α} (hleft : Known left) (hright : Known right)
    (hf : forall x, x ∈ left.toList -> forall y, y ∈ right.toList -> (f x y).Plain Known) :
    (left.agree f right).Plain Known := by
  unfold agree
  by_cases hlength : left.length = right.length
  · rw [if_pos hlength]
    apply (Action.plain_elements hleft).bind
    intro ls hls
    cases hls
    apply (Action.plain_elements hright).bind
    intro rs hrs
    cases hrs
    apply Action.plain_allM
    intro pair hmem
    rcases List.of_mem_zip hmem with ⟨hx, hy⟩
    exact hf pair.1 hx pair.2 hy
  · rw [if_neg hlength]
    exact Action.plain_done false

end Sequence

end ValueStore
