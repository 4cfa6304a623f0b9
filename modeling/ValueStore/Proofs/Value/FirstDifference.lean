import ValueStore.Proofs.Number.Binary64
import ValueStore.Proofs.Sequence.Standing
import ValueStore.Proofs.Value.Built
import ValueStore.Proofs.Value.Descent

/-!
# The first difference decides

Lists of different lengths differ, and nothing is asked about their elements. Of lists that
are equally long the elements are compared position by position, and the first answer that
is not yes is the answer for the lists, be it no or a refusal. So which of two differences
shows is a matter of where they are, at any depth, and never of which list is on the left:
to exchange two values without maps is to exchange the names in a refusal. Nor is it a
matter of where refusals are turned into differences. To do so at each position comes to
yes for the same lists as to do so once, at the end.
-/

namespace ValueStore

namespace Action

variable {α β : Type}

/-- The first answer that is not yes, or yes if there is none. -/
def decidedBy (answers : List (Except Error Bool)) : Except Error Bool :=
  (answers.find? fun answer => answer ≠ .ok true).getD (.ok true)

theorem decidedBy_cons_yes (rest : List (Except Error Bool)) :
    decidedBy (.ok true :: rest) = decidedBy rest := by
  simp [decidedBy]

theorem decidedBy_cons_of_ne {answer : Except Error Bool} (hne : answer ≠ .ok true)
    (rest : List (Except Error Bool)) :
    decidedBy (answer :: rest) = answer := by
  simp [decidedBy, hne]

theorem allM_eval (test : β -> Action α Bool) (elements : List β) :
    (allM test elements).eval = decidedBy (elements.map fun x => (test x).eval) := by
  induction elements with
  | nil =>
      rfl
  | cons x rest ih =>
      rw [List.map_cons]
      by_cases hx : (test x).eval = .ok true
      · rw [allM_cons_of_true hx, hx, decidedBy_cons_yes, ih]
      · rw [decidedBy_cons_of_ne hx]
        exact allM_of_first (List.forall_mem_nil _) rfl hx

theorem recover_eq_true_iff (x : Action α Bool) :
    (x.recover fun _ => return false).eval = .ok true ↔ x.eval = .ok true := by
  rw [eval_recover]
  cases x.eval with
  | error error =>
      simp
  | ok answer =>
      exact Iff.rfl

theorem recover_answers (x : Action α Bool) :
    exists answer, (x.recover fun _ => return false).eval = .ok answer := by
  rw [eval_recover]
  cases x.eval with
  | error error =>
      exact ⟨false, rfl⟩
  | ok answer =>
      exact ⟨answer, rfl⟩

/-! ## Both ways round -/

/-- The same answer, or two refusals that name the same two types the other way round. -/
inductive Exchanged : Except Error Bool -> Except Error Bool -> Prop where
  | answer (b : Bool) : Exchanged (.ok b) (.ok b)
  | refused (left right : String) :
      Exchanged (.error (.incomparable left right)) (.error (.incomparable right left))

theorem exchanged_of_eq {p q : Bool} (h : p = q) :
    Exchanged (.ok p) (.ok q) :=
  h ▸ Exchanged.answer p

theorem exchanged_decidedBy {answers answers' : List (Except Error Bool)}
    (h : List.Forall₂ Exchanged answers answers') :
    Exchanged (decidedBy answers) (decidedBy answers') := by
  induction h with
  | nil =>
      exact Exchanged.answer true
  | cons hanswer _hrest ih =>
      cases hanswer with
      | answer b =>
          cases b with
          | true =>
              rw [decidedBy_cons_yes, decidedBy_cons_yes]
              exact ih
          | false =>
              rw [decidedBy_cons_of_ne (by simp), decidedBy_cons_of_ne (by simp)]
              exact Exchanged.answer false
      | refused left right =>
          rw [decidedBy_cons_of_ne (by simp), decidedBy_cons_of_ne (by simp)]
          exact Exchanged.refused left right

theorem exchanged_zipWith {answer : β -> β -> Except Error Bool} {xs ys : List β}
    (h : forall x, x ∈ xs -> forall y, y ∈ ys -> Exchanged (answer x y) (answer y x)) :
    List.Forall₂ Exchanged (List.zipWith answer xs ys) (List.zipWith answer ys xs) := by
  induction xs generalizing ys with
  | nil =>
      rw [List.zipWith_nil_left, List.zipWith_nil_right]
      exact List.Forall₂.nil
  | cons x xs ih =>
      cases ys with
      | nil =>
          exact List.Forall₂.nil
      | cons y ys =>
          rcases List.forall_mem_cons.mp h with ⟨hx, hxs⟩
          apply List.Forall₂.cons (hx y List.mem_cons_self)
          exact ih fun x hx y hy => hxs x hx y (List.mem_cons_of_mem _ hy)

end Action

namespace Sequence

variable {α : Type}

theorem agree_eval (f : α -> α -> Action α Bool) {left right : Sequence α}
    (hlength : left.length = right.length) :
    (left.agree f right).eval =
      Action.decidedBy (List.zipWith (fun x y => (f x y).eval) left.toList right.toList) := by
  rw [agree_eval_of_length_eq f hlength, Action.allM_eval, List.map_zip_eq_zipWith]
  rfl

theorem agree_of_length_ne (f : α -> α -> Action α Bool) {left right : Sequence α}
    (hlength : left.length ≠ right.length) :
    left.agree f right = return false := by
  unfold agree
  rw [if_neg hlength]

theorem agree_exchanged {f : α -> α -> Action α Bool} {left right : Sequence α}
    (h : forall x, x ∈ left.toList -> forall y, y ∈ right.toList ->
      Action.Exchanged (f x y).eval (f y x).eval) :
    Action.Exchanged (left.agree f right).eval (right.agree f left).eval := by
  by_cases hlength : left.length = right.length
  · rw [agree_eval f hlength, agree_eval f hlength.symm]
    exact Action.exchanged_decidedBy (Action.exchanged_zipWith h)
  · rw [agree_of_length_ne f hlength, agree_of_length_ne f (Ne.symm hlength)]
    exact Action.Exchanged.answer false

theorem same_eq_true_iff (f : α -> α -> Action α Bool) (left right : Sequence α) :
    (left.same f right).eval = .ok true ↔ (left.agree f right).eval = .ok true := by
  unfold same
  by_cases hlength : left.length = right.length
  · rw [agree_eval_of_length_eq _ hlength, agree_eval_of_length_eq _ hlength,
      Action.allM_eq_true_iff, Action.allM_eq_true_iff]
    simp only [Action.recover_eq_true_iff]
  · rw [agree_of_length_ne _ hlength, agree_of_length_ne _ hlength]

theorem same_answers (f : α -> α -> Action α Bool) (left right : Sequence α) :
    exists answer, (left.same f right).eval = .ok answer ∧
      (answer = true ↔ (left.agree f right).eval = .ok true) := by
  have hanswers : exists answer, (left.same f right).eval = .ok answer :=
    agree_answers fun x _ y _ => (f x y).recover_answers
  rcases hanswers with ⟨answer, hanswer⟩
  refine ⟨answer, hanswer, ?_⟩
  rw [← same_eq_true_iff, hanswer, Except.ok.injEq]

theorem plain_same {Known : Sequence α -> Prop} {f : α -> α -> Action α Bool}
    {left right : Sequence α} (hleft : Known left) (hright : Known right)
    (hf : forall x, x ∈ left.toList -> forall y, y ∈ right.toList -> (f x y).Plain Known) :
    (left.same f right).Plain Known := by
  apply plain_agree hleft hright
  intro x hx y hy
  exact (hf x hx y hy).recover fun _ _ => Action.plain_done false

end Sequence

namespace Value

/-! ## Values without maps -/

def MapFree (v : Value) : Prop :=
  forall m : ValueMap, ¬(map m).Within v

theorem MapFree.element {items : Sequence Value} (h : MapFree (list items)) {v : Value}
    (hv : v ∈ items.toList) :
    MapFree v :=
  fun m hm => h m (Within.element hv hm)

theorem mapFree_list {items : Sequence Value}
    (helements : forall v, v ∈ items.toList -> MapFree v) :
    MapFree (list items) := by
  intro m hm
  cases hm with
  | element hv hm =>
      exact helements _ hv m hm

def contrast (a b : Value) : Action Value Bool :=
  if a.isComparable && b.isComparable then
    return false
  else
    Action.fail (.incomparable a.typeName b.typeName)

/-- Two values of one kind, or two of which each is told from the other by kind alone. -/
inductive Paired : Value -> Value -> Prop where
  | integer (m n : Int64) : Paired (integer m) (integer n)
  | float (x y : Binary64) : Paired (float x) (float y)
  | string (s t : String) : Paired (string s) (string t)
  | boolean (p q : Bool) : Paired (boolean p) (boolean q)
  | list (xs ys : Sequence Value) : Paired (list xs) (list ys)
  | map (l r : ValueMap) : Paired (map l) (map r)
  | foreign (g h : Handle) : Paired (foreign g) (foreign h)
  | apart {a b : Value} :
      (a.agree b).eval = (contrast a b).eval -> (b.agree a).eval = (contrast b a).eval ->
      Paired a b

theorem paired (a b : Value) : Paired a b := by
  have hapart : (agreeAt (max a.height b.height + 1) a b).eval = (contrast a b).eval ->
      (agreeAt (max b.height a.height + 1) b a).eval = (contrast b a).eval -> Paired a b :=
    fun hforth hback =>
      Paired.apart ((agree_eval a b).trans hforth) ((agree_eval b a).trans hback)
  cases a with
  | integer m =>
      cases b with
      | integer n =>
          exact Paired.integer m n
      | _ =>
          exact hapart rfl rfl
  | float x =>
      cases b with
      | float y =>
          exact Paired.float x y
      | _ =>
          exact hapart rfl rfl
  | string s =>
      cases b with
      | string t =>
          exact Paired.string s t
      | _ =>
          exact hapart rfl rfl
  | boolean p =>
      cases b with
      | boolean q =>
          exact Paired.boolean p q
      | _ =>
          exact hapart rfl rfl
  | list xs =>
      cases b with
      | list ys =>
          exact Paired.list xs ys
      | _ =>
          exact hapart rfl rfl
  | map l =>
      cases b with
      | map r =>
          exact Paired.map l r
      | _ =>
          exact hapart rfl rfl
  | function g =>
      cases b <;> exact hapart rfl rfl
  | channel g =>
      cases b <;> exact hapart rfl rfl
  | foreign g =>
      cases b with
      | foreign h =>
          exact Paired.foreign g h
      | _ =>
          exact hapart rfl rfl

theorem exchanged_contrast (a b : Value) :
    Action.Exchanged (contrast a b).eval (contrast b a).eval := by
  unfold contrast
  rw [Bool.and_comm b.isComparable]
  split
  · exact Action.Exchanged.answer false
  · exact Action.Exchanged.refused _ _

theorem exchanged_foreign (g h : Handle) :
    Action.Exchanged ((foreign g).agree (foreign h)).eval ((foreign h).agree (foreign g)).eval := by
  have hagree : forall g h : Handle, (foreign g).agree (foreign h) =
      if g.comparable && h.comparable then
        return g.typeName == h.typeName && g.identity == h.identity
      else
        contrast (foreign g) (foreign h) :=
    fun _ _ => rfl
  rw [hagree, hagree, Bool.and_comm h.comparable]
  split
  · apply Action.exchanged_of_eq
    rw [BEq.comm, BEq.comm (a := g.identity)]
  · exact exchanged_contrast _ _

theorem agree_exchanged_of_height {n : Nat} {a b : Value} (han : a.height ≤ n)
    (hbn : b.height ≤ n) (ha : a.MapFree) (hb : b.MapFree) :
    Action.Exchanged (a.agree b).eval (b.agree a).eval := by
  induction n generalizing a b with
  | zero =>
      exact absurd a.height_pos (Nat.not_lt.mpr han)
  | succ n ih =>
      cases paired a b with
      | integer m n =>
          exact Action.exchanged_of_eq BEq.comm
      | float x y =>
          have hcomm : x.equal y = y.equal x :=
            Bool.eq_iff_iff.mpr ⟨Binary64.equal_symm, Binary64.equal_symm⟩
          exact Action.exchanged_of_eq hcomm
      | string s t =>
          exact Action.exchanged_of_eq BEq.comm
      | boolean p q =>
          exact Action.exchanged_of_eq BEq.comm
      | list xs ys =>
          rw [agree_list, agree_list]
          apply Sequence.agree_exchanged
          intro x hx y hy
          have hxn := Nat.le_of_lt_succ ((height_lt_of_mem_list hx).trans_le han)
          have hyn := Nat.le_of_lt_succ ((height_lt_of_mem_list hy).trans_le hbn)
          exact ih hxn hyn (ha.element hx) (hb.element hy)
      | map l r =>
          exact absurd Within.self (ha l)
      | foreign g h =>
          exact exchanged_foreign g h
      | apart hforth hback =>
          rw [hforth, hback]
          exact exchanged_contrast a b

theorem agree_exchanged {a b : Value} (ha : a.MapFree) (hb : b.MapFree) :
    Action.Exchanged (a.agree b).eval (b.agree a).eval :=
  agree_exchanged_of_height (Nat.le_max_left a.height b.height) (Nat.le_max_right _ _) ha hb

/-! ## Comparing lists -/

/--
Sequences that stand for lists of different lengths differ, and nothing is asked about elements. Of
others the first position where the answer about the elements is not yes decides, and its answer is
the answer. Sequences of values are equal with a refusal counted as a difference at each position
exactly if they are equal as values. Two values without maps are compared alike both ways round.
None of this depends on what cells keep that are faithful to the sequences at hand.
-/
theorem lists_decided_by_first_difference :
    (forall (α : Type) (f : α -> α -> Action α Bool) (left right : Sequence α) (xs ys : List α),
        left.Stands xs -> right.Stands ys ->
          (xs.length ≠ ys.length -> left.agree f right = return false) ∧
          (xs.length = ys.length -> (left.agree f right).eval =
            Action.decidedBy (List.zipWith (fun x y => (f x y).eval) xs ys)) ∧
          forall Known : Sequence α -> Prop, Known left -> Known right ->
            (forall x, x ∈ xs -> forall y, y ∈ ys -> (f x y).Plain Known) ->
              (left.agree f right).Plain Known) ∧
      (forall left right : Sequence Value, exists answer,
        (left.same agree right).eval = .ok answer ∧
          (answer = true ↔ ((list left).agree (list right)).eval = .ok true)) ∧
      (forall a b : Value, a.MapFree -> b.MapFree ->
        Action.Exchanged (a.agree b).eval (b.agree a).eval) ∧
      (forall Known (left right : Sequence Value),
        ListsKnown Known (list left) -> ListsKnown Known (list right) ->
          (left.same agree right).Plain Known) ∧
      forall Known a b, ListsKnown Known a -> ListsKnown Known b -> (a.agree b).Plain Known := by
  refine ⟨?_, ?_, fun _ _ => agree_exchanged, ?_, fun _ _ _ => plain_agree⟩
  · intro α f left right xs ys hleft hright
    rw [← hleft.length_eq, ← hright.length_eq]
    refine ⟨Sequence.agree_of_length_ne f, ?_, ?_⟩
    · intro hlength
      rw [Sequence.agree_eval f hlength, hleft.toList, hright.toList]
    · intro Known hleftKnown hrightKnown hf
      rw [← hleft.toList, ← hright.toList] at hf
      exact Sequence.plain_agree hleftKnown hrightKnown hf
  · intro left right
    rw [agree_list]
    exact Sequence.same_answers agree left right
  · intro Known left right hleft hright
    apply Sequence.plain_same hleft.items hright.items
    intro x hx y hy
    exact plain_agree (hleft.element hx) (hright.element hy)

def oneThen (cell : CellId) (v : Value) : Sequence Value :=
  { front := [integer 1], frontLength := 1, back := [v], backLength := 1, cell := cell }

theorem stands_oneThen (cell : CellId) (v : Value) :
    (oneThen cell v).Stands [integer 1, v] :=
  ⟨⟨rfl, rfl⟩, rfl⟩

theorem mapFree_oneThen {v : Value} (hv : v.MapFree) (cell : CellId) :
    (list (oneThen cell v)).MapFree := by
  apply mapFree_list
  intro w hw
  rcases List.mem_pair.mp hw with rfl | rfl
  · intro m hm
    cases hm
  · exact hv

theorem listsKnown_oneThen {Known : Sequence Value -> Prop} {cell : CellId} {v : Value}
    (hitems : Known (oneThen cell v)) (hv : ListsKnown Known v) :
    ListsKnown Known (list (oneThen cell v)) := by
  apply listsKnown_list hitems
  intro w hw
  rcases List.mem_pair.mp hw with rfl | rfl
  · exact listsKnown_integer 1
  · exact hv

/-- The ones agree, so the function is come to, and either way round it is refused. -/
theorem lists_decided_by_first_difference_oneThen :
    let left := oneThen 0 (function (Handle.ofIdentity "callback" 7))
    let right := oneThen 1 (integer 2)
    left.Stands [integer 1, function (Handle.ofIdentity "callback" 7)] ∧
      right.Stands [integer 1, integer 2] ∧
      left.agree agree (Sequence.emptyAt 2) = (return false) ∧
      (left.agree agree right).eval = .error (.incomparable "function" "integer") ∧
      (left.same agree right).eval = .ok false ∧
      Action.Exchanged ((list left).agree (list right)).eval ((list right).agree (list left)).eval ∧
      (Cells.run ((list left).agree (list right)) Cells.empty).1 =
        .error (.incomparable "function" "integer") := by
  intro left right
  have hleft : left.Stands [integer 1, function (Handle.ofIdentity "callback" 7)] :=
    stands_oneThen 0 _
  have hright : right.Stands [integer 1, integer 2] :=
    stands_oneThen 1 _
  have hcells : (Cells.empty : Cells Value).Faithful (OfEither (list left) (list right)) :=
    faithful_empty_ofEither (by decide)
  rcases lists_decided_by_first_difference with ⟨hfirst, hsame, hexchanged, _hplainSame, hplain⟩
  refine ⟨hleft, hright, ?_, ?_, ?_, ?_, ?_⟩
  · exact (hfirst _ agree _ _ _ _ hleft (Sequence.stands_emptyAt 2)).1 (by decide)
  · exact (hfirst _ agree _ _ _ _ hleft hright).2.1 rfl
  · rcases hsame left right with ⟨answer, hanswer, hiff⟩
    cases answer with
    | false =>
        exact hanswer
    | true =>
        cases hiff.mp rfl
  · apply hexchanged
    · apply mapFree_oneThen
      intro m hm
      cases hm
    · apply mapFree_oneThen
      intro m hm
      cases hm
  · have hfunction : ListsKnown (OfEither (list left) (list right))
        (function (Handle.ofIdentity "callback" 7)) := by
      intro items hitems
      cases hitems
    have hruns := hplain _ (list left) (list right) (listsKnown_oneThen (Or.inl rfl) hfunction)
      (listsKnown_oneThen (Or.inr rfl) (listsKnown_integer 2))
    rw [(hruns _ hcells).1]
    rfl

end Value

end ValueStore
