import Mathlib.Data.List.Perm.Subperm
import ValueStore.Proofs.Dictionary.Agreement

/-!
# The entry that decides a comparison

Two dictionaries of equally many entries are compared by asking about the entries of the
left one in the order in which they are visited, until one has no match in the right one.
That entry decides: the answer is no if it differs and a refusal if its value cannot be
compared. If all have a match, then so have the entries of the right dictionary, and
asking about them changes nothing. So the order in which the left dictionary is visited
matters exactly if one of its entries differs and another one is refused.
-/

namespace ValueStore

variable {α κ ν : Type}

namespace Dictionary

theorem Verdict.perm {keying : Keying α κ} {f : ν -> ν -> Action α Bool}
    {held held' : List (κ × ν)} {d : κ × ν} {outcome : Except Error Bool}
    (hperm : held.Perm held') (h : Verdict keying f held d outcome) :
    Verdict keying f held' d outcome := by
  cases h with
  | absent hdiffer =>
      exact Verdict.absent fun e he => hdiffer e (hperm.mem_iff.mpr he)
  | present he hsame hvalue =>
      exact Verdict.present (hperm.mem_iff.mp he) hsame hvalue

inductive Decided (keying : Keying α κ) (f : ν -> ν -> Action α Bool) (held : List (κ × ν)) :
    List (κ × ν) -> Except Error Bool -> Prop where
  | matched {entries : List (κ × ν)} :
      (forall d, d ∈ entries -> Verdict keying f held d (.ok true)) ->
      Decided keying f held entries (.ok true)
  | first {before after : List (κ × ν)} {d : κ × ν} {outcome : Except Error Bool} :
      (forall c, c ∈ before -> Verdict keying f held c (.ok true)) ->
      Verdict keying f held d outcome -> outcome ≠ .ok true ->
      Decided keying f held (before ++ d :: after) outcome

theorem Decided.perm {keying : Keying α κ} {f : ν -> ν -> Action α Bool}
    {held held' entries : List (κ × ν)} {outcome : Except Error Bool}
    (hperm : held.Perm held') (h : Decided keying f held entries outcome) :
    Decided keying f held' entries outcome := by
  cases h with
  | matched hall =>
      exact Decided.matched fun d hd => (hall d hd).perm hperm
  | first hbefore hverdict hne =>
      exact Decided.first (fun c hc => (hbefore c hc).perm hperm) (hverdict.perm hperm) hne

theorem Decided.exists_verdict {keying : Keying α κ} {f : ν -> ν -> Action α Bool}
    {held entries : List (κ × ν)} {outcome : Except Error Bool}
    (h : Decided keying f held entries outcome) (hne : outcome ≠ .ok true) :
    exists d, d ∈ entries ∧ Verdict keying f held d outcome := by
  cases h with
  | matched _hall =>
      exact absurd rfl hne
  | first _hbefore hverdict _hne =>
      exact ⟨_, List.mem_append_right _ List.mem_cons_self, hverdict⟩

/-- Any entry without a match decides, if it comes first. -/
theorem Verdict.exists_order {keying : Keying α κ} {f : ν -> ν -> Action α Bool}
    {held entries : List (κ × ν)} {d : κ × ν} {outcome : Except Error Bool} (hd : d ∈ entries)
    (h : Verdict keying f held d outcome) (hne : outcome ≠ .ok true) :
    exists order : List (κ × ν), order.Perm entries ∧ Decided keying f held order outcome := by
  rcases List.append_of_mem hd with ⟨before, after, rfl⟩
  refine ⟨[] ++ d :: (before ++ after), List.perm_middle.symm, ?_⟩
  exact Decided.first (List.forall_mem_nil _) h hne

/-! ## Entries that tear a comparison apart -/

/-- One entry differs and another one is refused. -/
structure Torn (keying : Keying α κ) (f : ν -> ν -> Action α Bool)
    (held entries : List (κ × ν)) : Prop where
  differs : exists d, d ∈ entries ∧ Verdict keying f held d (.ok false)
  refused : exists d, d ∈ entries ∧ exists error, Verdict keying f held d (.error error)

theorem Decided.toOption_eq {keying : Keying α κ} {f : ν -> ν -> Action α Bool}
    {held entries entries' : List (κ × ν)} {outcome outcome' : Except Error Bool}
    (hperm : entries.Perm entries') (htorn : ¬Torn keying f held entries)
    (h : Decided keying f held entries outcome) (h' : Decided keying f held entries' outcome')
    (hne : outcome ≠ .ok true) (hne' : outcome' ≠ .ok true) :
    outcome.toOption = outcome'.toOption := by
  rcases h.exists_verdict hne with ⟨d, hd, hverdict⟩
  rcases h'.exists_verdict hne' with ⟨d', hd', hverdict'⟩
  have hd' := hperm.mem_iff.mpr hd'
  match outcome, outcome' with
  | .ok true, _ =>
      exact absurd rfl hne
  | _, .ok true =>
      exact absurd rfl hne'
  | .ok false, .ok false =>
      rfl
  | .error _, .error _ =>
      rfl
  | .ok false, .error error =>
      exact (htorn ⟨⟨d, hd, hverdict⟩, ⟨d', hd', error, hverdict'⟩⟩).elim
  | .error error, .ok false =>
      exact (htorn ⟨⟨d', hd', hverdict'⟩, ⟨d, hd, error, hverdict⟩⟩).elim

/-! ## One direction is enough -/

/-- A dictionary that covers another one of equal size leaves no entry of it over. -/
theorem Covers.back {keying : Keying α κ} {left right : Dictionary κ ν}
    (hleft : left.Sound keying) (hright : right.Sound keying) {Known : κ -> Prop}
    (hlawful : keying.Lawful Known) (hleftKnown : left.KeysKnown Known)
    (hrightKnown : right.KeysKnown Known) {f : ν -> ν -> Action α Bool}
    (hsymm : forall d, d ∈ left.toList -> forall e, e ∈ right.toList ->
      (f d.2 e.2).eval = .ok true -> (f e.2 d.2).eval = .ok true)
    (hsize : left.size = right.size) (hcovers : Covers keying f left right) :
    Covers keying f right left := by
  choose partner hpartner using hcovers
  let partners := left.toList.pmap partner fun _ hd => hd
  have hdistinct : partners.Nodup := by
    -- one entry cannot be the partner of two, since their keys are unlike
    apply (hleft.unlike hlawful hleftKnown).pmap
    intro d hd e he hunlike heq
    have hdSame := (hpartner d hd).2.1
    have heSame := heq ▸ (hpartner e he).2.1
    have hknown := hrightKnown _ (hpartner d hd).1
    exact hunlike.not_both_same hlawful (hleftKnown d hd) (hleftKnown e he) hknown
      (hlawful.symm _ _ hknown (hleftKnown d hd) hdSame)
      (hlawful.symm _ _ hknown (hleftKnown e he) heSame)
  have hsubset : partners ⊆ right.toList := by
    intro e he
    rcases List.mem_pmap.mp he with ⟨d, hd, rfl⟩
    exact (hpartner d hd).1
  have hlength : right.toList.length = partners.length := by
    rw [List.length_pmap, ← hright.counted, ← hleft.counted, hsize]
  have hperm :=
    (List.subperm_of_subset hdistinct hsubset).perm_of_length_le (Nat.le_of_eq hlength)
  intro e he
  rcases List.mem_pmap.mp (hperm.mem_iff.mpr he) with ⟨d, hd, rfl⟩
  rcases hpartner d hd with ⟨he, hsame, hvalue⟩
  exact ⟨d, hd, hlawful.symm _ _ (hrightKnown _ he) (hleftKnown d hd) hsame,
    hsymm d hd _ he hvalue⟩

theorem agree_eval_of_size_ne (keying : Keying α κ) (f : ν -> ν -> Action α Bool)
    {left right : Dictionary κ ν} (hsize : left.size ≠ right.size) :
    (left.agree keying f right).eval = .ok false := by
  rw [agree, if_neg hsize]
  rfl

theorem Sound.holdsAll_back {keying : Keying α κ} {left right : Dictionary κ ν}
    (hleft : left.Sound keying) (hright : right.Sound keying) {Known : κ -> Prop}
    (hlawful : keying.Lawful Known) (hleftKnown : left.KeysKnown Known)
    (hrightKnown : right.KeysKnown Known) {f : ν -> ν -> Action α Bool}
    (hsymm : forall d, d ∈ left.toList -> forall e, e ∈ right.toList ->
      (f d.2 e.2).eval = .ok true -> (f e.2 d.2).eval = .ok true)
    (hsize : left.size = right.size)
    (hholds : (right.holdsAll keying f left.toList).eval = .ok true) :
    (left.holdsAll keying f right.toList).eval = .ok true := by
  have hforth := hright.holdsAll_eq_true_iff hlawful hrightKnown f hleft hleftKnown
  have hback := hleft.holdsAll_eq_true_iff hlawful hleftKnown f hright hrightKnown
  have hcovers := hforth.mp hholds
  exact hback.mpr (hcovers.back hleft hright hlawful hleftKnown hrightKnown hsymm hsize)

theorem Sound.agree_eval {keying : Keying α κ} {left right : Dictionary κ ν}
    (hleft : left.Sound keying) (hright : right.Sound keying) {Known : κ -> Prop}
    (hlawful : keying.Lawful Known) (hleftKnown : left.KeysKnown Known)
    (hrightKnown : right.KeysKnown Known) {f : ν -> ν -> Action α Bool}
    (hsymm : forall d, d ∈ left.toList -> forall e, e ∈ right.toList ->
      (f d.2 e.2).eval = .ok true -> (f e.2 d.2).eval = .ok true)
    (hsize : left.size = right.size) :
    (left.agree keying f right).eval = (right.holdsAll keying f left.toList).eval := by
  rw [agree, if_pos hsize]
  cases hanswer : (right.holdsAll keying f left.toList).eval with
  | error error =>
      exact Action.eval_bind_of_error hanswer _
  | ok answer =>
      rw [Action.eval_bind_of_ok hanswer]
      cases answer with
      | false =>
          rfl
      | true =>
          exact hleft.holdsAll_back hright hlawful hleftKnown hrightKnown hsymm hsize hanswer

theorem Sound.agree_eval_iff {keying : Keying α κ} {left right : Dictionary κ ν}
    (hleft : left.Sound keying) (hright : right.Sound keying) {Known : κ -> Prop}
    (hlawful : keying.Lawful Known) (hleftKnown : left.KeysKnown Known)
    (hrightKnown : right.KeysKnown Known) {f : ν -> ν -> Action α Bool}
    (hsymm : forall d, d ∈ left.toList -> forall e, e ∈ right.toList ->
      (f d.2 e.2).eval = .ok true -> (f e.2 d.2).eval = .ok true)
    (hsize : left.size = right.size) {outcome : Except Error Bool} :
    (left.agree keying f right).eval = outcome ↔
      Decided keying f right.toList left.toList outcome := by
  have hholds : forall d, d ∈ left.toList -> forall outcome,
      (right.holds keying f d).eval = outcome ↔ Verdict keying f right.toList d outcome :=
    fun _ hd _ => hleft.holds_iff hright hlawful hleftKnown hrightKnown f hd
  rw [hleft.agree_eval hright hlawful hleftKnown hrightKnown hsymm hsize]
  change (Action.allM (right.holds keying f) left.toList).eval = outcome ↔ _
  generalize left.toList = entries at hholds ⊢
  constructor
  · intro hall
    by_cases hyes : outcome = .ok true
    · rw [hyes] at hall ⊢
      have hall := Action.allM_eq_true_iff.mp hall
      exact Decided.matched fun d hd => (hholds d hd _).mp (hall d hd)
    · rcases Action.exists_first_of_allM hall hyes with ⟨before, d, after, rfl, hbefore, hd⟩
      have hmem : d ∈ before ++ d :: after := List.mem_append_right _ List.mem_cons_self
      refine Decided.first ?_ ((hholds d hmem _).mp hd) hyes
      intro c hc
      exact (hholds c (List.mem_append_left _ hc) _).mp (hbefore c hc)
  · intro hdecided
    cases hdecided with
    | matched hall =>
        exact Action.allM_eq_true_iff.mpr fun d hd => (hholds d hd _).mpr (hall d hd)
    | first hbefore hverdict hne =>
        refine Action.allM_of_first ?_ ((hholds _ ?_ _).mpr hverdict) hne
        · intro c hc
          exact (hholds c (List.mem_append_left _ hc) _).mpr (hbefore c hc)
        · exact List.mem_append_right _ List.mem_cons_self

end Dictionary

end ValueStore
