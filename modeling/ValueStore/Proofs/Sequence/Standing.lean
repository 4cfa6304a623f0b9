import ValueStore.Proofs.Sequence.Agreement
import ValueStore.Proofs.Sequence.ListFormat
import ValueStore.Proofs.Sequence.Outline
import ValueStore.Proofs.Stock

/-!
# What operations make of the list a sequence stands for

A sequence stands for a list if its chains hold the list and its stored lengths are the
lengths of the chains. Every operation that makes a sequence makes one that stands for
the list expected, whichever of the two chains the elements are in; it is refused exactly
where there is none. Reading answers from the list alone.
-/

namespace ValueStore

namespace Sequence

variable {α σ : Type}

structure Stands (s : Sequence α) (xs : List α) : Prop where
  counted : s.Counted
  toList : s.toList = xs

theorem stands_emptyAt (cell : CellId) :
    (emptyAt cell : Sequence α).Stands [] :=
  ⟨⟨rfl, rfl⟩, rfl⟩

theorem Stands.length_eq {s : Sequence α} {xs : List α} (h : s.Stands xs) :
    s.length = xs.length :=
  h.toList ▸ length_eq_length_toList h.counted

theorem Stands.isEmpty_eq {s : Sequence α} {xs : List α} (h : s.Stands xs) :
    s.isEmpty = xs.isEmpty :=
  h.toList ▸ isEmpty_eq_isEmpty_toList s

theorem Counted.one_le {s : Sequence α} (h : s.Counted) :
    (s.front ≠ [] -> 1 ≤ s.frontLength) ∧ (s.toList ≠ [] -> 1 ≤ s.length) := by
  rw [length_eq_length_toList h, h.1]
  exact ⟨List.length_pos_iff.mpr, List.length_pos_iff.mpr⟩

/-- The action makes a sequence that stands for the list expected, and nothing else is new. -/
def Makes (Known : Sequence α -> Prop) (x : Action α (Sequence α))
    (expected : Except Error (List α)) : Prop :=
  x.Mirrors Known expected Stands fun s t => t = s

theorem makes_fresh {Known : Sequence α -> Prop} {make : CellId -> Sequence α} {xs : List α}
    (hcell : forall cell, (make cell).cell = cell) (hmake : forall cell, (make cell).Stands xs) :
    Makes Known (do return make (← Action.freshCell)) (.ok xs) := by
  intro cells hcells
  exact Action.Mirrored.ok (hmake _) (hcells.allocate (hcell _))

theorem makes_known {Known : Sequence α -> Prop} {s : Sequence α} {xs : List α}
    (hs : s.back ≠ [] -> Known s) (h : s.Stands xs) :
    Makes Known (return s) (.ok xs) := by
  apply Action.mirrors_ok h
  rintro t rfl
  exact hs

/-! ## Building -/

theorem makes_empty (Known : Sequence α -> Prop) :
    Makes Known empty (.ok []) :=
  makes_fresh (fun _ => rfl) stands_emptyAt

theorem makes_ofList (Known : Sequence α -> Prop) (elements : List α) :
    Makes Known (ofList elements) (.ok elements) :=
  makes_fresh (fun _ => rfl)
    fun cell => ⟨counted_ofListAt cell elements, toList_ofListAt cell elements⟩

theorem Stands.prepend {s : Sequence α} {xs : List α} (h : s.Stands xs)
    (Known : Sequence α -> Prop) (elements : List α) :
    Makes Known (s.prepend elements) (.ok (elements ++ xs)) := by
  apply makes_fresh (fun _ => rfl)
  intro cell
  constructor
  · exact ⟨by simp [h.counted.1, Nat.add_comm], h.counted.2⟩
  · simp [Sequence.toList, ← h.toList]

theorem Stands.append {s : Sequence α} {xs : List α} (h : s.Stands xs)
    (Known : Sequence α -> Prop) (elements : List α) :
    Makes Known (s.append elements) (.ok (xs ++ elements)) := by
  apply makes_fresh (fun _ => rfl)
  intro cell
  constructor
  · exact ⟨h.counted.1, by simp [h.counted.2, Nat.add_comm]⟩
  · simp [Sequence.toList, ← h.toList]

theorem Stands.reverse {s : Sequence α} {xs : List α} (h : s.Stands xs)
    (Known : Sequence α -> Prop) :
    Makes Known s.reverse (.ok xs.reverse) := by
  apply makes_fresh (fun _ => rfl)
  intro cell
  constructor
  · exact h.counted.symm
  · simp [Sequence.toList, ← h.toList]

theorem prependEach_makes {Known : Sequence α -> Prop} {parts : List (Sequence α)}
    (hparts : forall part, part ∈ parts -> Known part) {s : Sequence α} {xs : List α}
    (hs : Known s) (h : s.Stands xs) :
    Makes Known (s.prependEach parts) (.ok ((parts.reverse.map toList).flatten ++ xs)) := by
  -- what a part was put in front of is known from then on, so the known sequences vary
  induction parts generalizing Known s xs with
  | nil =>
      exact makes_known (fun _ => hs) h
  | cons part rest ih =>
      rcases List.forall_mem_cons.mp hparts with ⟨hpart, hrest⟩
      have hexpected : ((part :: rest).reverse.map toList).flatten ++ xs =
          (rest.reverse.map toList).flatten ++ (part.toList ++ xs) := by
        simp
      rw [hexpected]
      apply (Action.plain_elements hpart).mirrors.bind (g := fun elements =>
        Except.ok ((rest.reverse.map toList).flatten ++ (elements ++ xs)))
      rintro elements _ _hread rfl
      apply (h.prepend _ elements).bind (g := fun joined =>
        Except.ok ((rest.reverse.map toList).flatten ++ joined))
      rintro joined _ hjoined hstands
      cases hjoined
      exact ih (fun part hpart => Or.inl (Or.inl (hrest part hpart))) (Or.inr rfl) hstands

theorem flatten_filter_isEmpty (parts : List (Sequence α)) :
    ((parts.filter fun part => !part.isEmpty).map toList).flatten =
      (parts.map toList).flatten := by
  simp only [isEmpty_eq_isEmpty_toList]
  rw [← List.flatten_filter_not_isEmpty (L := parts.map toList), List.filter_map]
  rfl

theorem concat_makes {Known : Sequence α -> Prop} {s : Sequence α} {others : List (Sequence α)}
    (hknown : forall part, part ∈ s :: others -> Known part ∧ part.Counted) :
    Makes Known (s.concat others) (.ok (s.toList ++ (others.map toList).flatten)) := by
  rw [← List.flatten_cons, ← List.map_cons, ← flatten_filter_isEmpty]
  unfold concat
  cases hparts : ((s :: others).filter fun part => !part.isEmpty).reverse with
  | nil =>
      rw [List.reverse_eq_nil_iff] at hparts
      rw [hparts]
      exact makes_empty Known
  | cons final earlier =>
      have hmem : forall part, part ∈ final :: earlier -> Known part ∧ part.Counted := by
        intro part hpart
        rw [← hparts, List.mem_reverse] at hpart
        exact hknown part (List.mem_of_mem_filter hpart)
      rcases List.forall_mem_cons.mp hmem with ⟨hfinal, hearlier⟩
      rw [List.reverse_eq_cons_iff] at hparts
      rw [hparts, List.map_append, List.flatten_append]
      have hstands : final.Stands ([final].map toList).flatten := ⟨hfinal.2, by simp⟩
      exact prependEach_makes (fun part hpart => (hearlier part hpart).1) hfinal.1 hstands

/-! ## Reading -/

def Answers {β : Type} (Known : Sequence α -> Prop) (x : Action α β)
    (expected : Except Error β) : Prop :=
  x.Mirrors Known expected Eq fun _ _ => False

theorem answers_of_plain {β : Type} {Known : Sequence α -> Prop} {x : Action α β}
    {expected : Except Error β} (hx : x.Plain Known) (heval : x.eval = expected) :
    Answers Known x expected :=
  heval ▸ hx.mirrors

theorem Stands.reading {β : Type} {Known : Sequence α -> Prop} {s : Sequence α} {xs : List α}
    (h : s.Stands xs) (hs : Known s) {f : List α -> Action α β} (hf : (f xs).Plain Known) :
    Answers Known (Action.elements s >>= f) (f xs).eval := by
  rw [← h.toList] at hf ⊢
  refine answers_of_plain ?_ (Action.eval_bind_of_ok (Action.eval_elements s) f)
  apply (Action.plain_elements hs).bind
  intro elements helements
  cases helements
  exact hf

theorem Stands.elements {Known : Sequence α -> Prop} {s : Sequence α} {xs : List α}
    (h : s.Stands xs) (hs : Known s) :
    Answers Known (Action.elements s) (.ok xs) :=
  answers_of_plain (Action.plain_elements hs) (congrArg Except.ok h.toList)

theorem Stands.head {Known : Sequence α -> Prop} {s : Sequence α} {xs : List α}
    (h : s.Stands xs) (hs : Known s) :
    Answers Known s.head (Outline.found .head xs.head?) := by
  unfold Sequence.head
  cases hfront : s.front with
  | cons x front =>
      rw [← h.toList, Sequence.toList, hfront]
      exact (Action.plain_done x).mirrors
  | nil =>
      cases xs with
      | nil =>
          exact h.reading hs (Action.plain_fail _)
      | cons x rest =>
          exact h.reading hs (Action.plain_done x)

theorem Stands.last {s : Sequence α} {xs : List α} (h : s.Stands xs)
    (Known : Sequence α -> Prop) :
    Answers Known s.last (Outline.found .last xs.getLast?) := by
  unfold Sequence.last
  rw [← h.toList, Sequence.toList]
  cases hback : s.back with
  | cons x back =>
      simp only [List.reverse_cons, ← List.append_assoc, List.getLast?_concat]
      exact (Action.plain_done x).mirrors
  | nil =>
      simp only [List.reverse_nil, List.append_nil]
      cases s.front.getLast? with
      | none =>
          exact (Action.plain_fail _).mirrors
      | some x =>
          exact (Action.plain_done x).mirrors

theorem Stands.get? {Known : Sequence α -> Prop} {s : Sequence α} {xs : List α}
    (h : s.Stands xs) (hs : Known s) (index : Nat) :
    Answers Known (s.get? index) (.ok xs[index]?) :=
  h.reading hs (Action.plain_done _)

theorem Cursor.drawFrom_eq (xs : List α) (drawn : Array (Option α)) (n : Nat) :
    ({ pending := xs, remaining := xs.length } : Cursor α).drawFrom drawn n =
      (drawn ++ (Outline.draws xs n).toArray,
        { pending := xs.drop n, remaining := xs.length - n }) := by
  induction n generalizing xs drawn with
  | zero =>
      simp [drawFrom, Outline.draws]
  | succ n ih =>
      cases xs with
      | nil =>
          refine (ih [] (drawn.push none)).trans ?_
          simp [Outline.draws, List.replicate_succ, ← Array.toList_inj]
      | cons x rest =>
          refine (ih rest (drawn.push (some x))).trans ?_
          simp [Outline.draws]

theorem Stands.draw {Known : Sequence α -> Prop} {s : Sequence α} {xs : List α}
    (h : s.Stands xs) (hs : Known s) (n : Nat) :
    Answers Known (do return (← s.cursor).draw n)
      (.ok ((Outline.draws xs n).toArray,
        { pending := xs.drop n, remaining := xs.length - n })) := by
  have hdraw := Cursor.drawFrom_eq xs #[] n
  rw [Array.empty_append, ← h.length_eq] at hdraw
  rw [← h.length_eq, ← hdraw]
  exact h.reading hs (Action.plain_done _)

/-! ## Taking apart -/

theorem Stands.rest {Known : Sequence α -> Prop} {s : Sequence α} {xs : List α}
    (h : s.Stands xs) (hs : Known s) :
    Makes Known s.rest (Outline.found .rest xs.tail?) := by
  unfold Sequence.rest
  cases hfront : s.front with
  | cons x front =>
      rw [← h.toList, Sequence.toList, hfront]
      apply makes_fresh (fun _ => rfl)
      intro cell
      constructor
      · exact ⟨by simp [h.counted.1, hfront], h.counted.2⟩
      · rfl
  | nil =>
      apply (h.elements hs).bind (g := fun elements => Outline.found .rest elements.tail?)
      rintro elements _ hread rfl
      cases hread
      cases xs with
      | nil =>
          exact Action.mirrors_fail _
      | cons x rest =>
          apply makes_fresh (fun _ => rfl)
          intro cell
          constructor
          · exact ⟨by simp [h.length_eq], rfl⟩
          · simp [Sequence.toList]

theorem Stands.drop {Known : Sequence α -> Prop} {s : Sequence α} {xs : List α}
    (h : s.Stands xs) (hs : Known s) (n : Nat) :
    Makes Known (s.drop n) (Outline.dropped n xs) := by
  induction n generalizing Known s xs with
  | zero =>
      exact makes_known (fun _ => hs) h
  | succ n ih =>
      rw [Outline.dropped_succ]
      apply (h.rest hs).bind
      intro shorter ys _hys hshorter
      exact ih hshorter (Or.inr rfl)

/-! ## Comparing and showing -/

theorem Stands.agree {Known : Sequence α -> Prop} {left right : Sequence α} {xs ys : List α}
    (hleft : left.Stands xs) (hright : right.Stands ys) (hleftKnown : Known left)
    (hrightKnown : Known right) {f : α -> α -> Action α Bool}
    (hf : forall x, x ∈ xs -> forall y, y ∈ ys -> (f x y).Plain Known) :
    Answers Known (left.agree f right) (Outline.agree f xs ys) := by
  apply answers_of_plain
  · apply plain_agree hleftKnown hrightKnown
    rw [hleft.toList, hright.toList]
    exact hf
  · unfold Outline.agree
    rw [← hleft.length_eq, ← hright.length_eq]
    split
    · rename_i hlength
      rw [agree_eval_of_length_eq f hlength, hleft.toList, hright.toList]
    · rename_i hlength
      exact agree_eval_of_length_ne f hlength

theorem Stands.same {Known : Sequence α -> Prop} {left right : Sequence α} {xs ys : List α}
    (hleft : left.Stands xs) (hright : right.Stands ys) (hleftKnown : Known left)
    (hrightKnown : Known right) {f : α -> α -> Action α Bool}
    (hf : forall x, x ∈ xs -> forall y, y ∈ ys -> (f x y).Plain Known) :
    Answers Known (left.same f right)
      (Outline.agree (fun x y => (f x y).recover fun _ => return false) xs ys) :=
  hleft.agree hright hleftKnown hrightKnown fun x hx y hy =>
    (hf x hx y hy).recover fun _ _ => Action.plain_done false

theorem Stands.shown {Known : Sequence α -> Prop} {s : Sequence α} {xs : List α}
    (h : s.Stands xs) (hs : Known s) {f : α -> Action α String}
    (hf : forall x, x ∈ xs -> (f x).Plain Known) (whole : List String -> String) :
    Answers Known (do return whole (← (← Action.elements s).mapM f))
      (Outline.shown f whole xs) := by
  have heval : (do return whole (← xs.mapM f) : Action α String).eval =
      Outline.shown f whole xs :=
    Action.eval_bind _ _
  rw [← heval]
  exact h.reading hs ((Action.plain_mapM hf).bind fun _ _ => Action.plain_done _)

theorem Stands.serialized {Known : Sequence α -> Prop} {Given : α -> Prop} {s : Sequence α}
    {xs : List α} (h : s.Stands xs) (hs : Known s) {format : ListFormat α σ String}
    (hformat : format.Plain Known Given) (hgiven : forall x, x ∈ xs -> Given x) :
    Answers Known (s.serialize format) (Outline.serialized format xs) := by
  cases h.toList
  exact answers_of_plain (plain_serialize hformat hs hgiven) (eval_serialize format h.counted)

end Sequence

end ValueStore
