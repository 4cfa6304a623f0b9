import ValueStore.Proofs.Sequence.Standing

/-!
# A shelf answers as its outline

Taken through the same steps, a shelf and an outline answer the same, and every version
keeps standing for the list written down when it was made. This holds of any cells that
are right for what was known before, so neither the cells filled on the way nor the
copies that share them change an answer.
-/

namespace ValueStore

namespace Sequence

variable {α σ : Type}

structure Element.Plain (element : Element α σ) (Known : Sequence α -> Prop)
    (Given : α -> Prop) : Prop where
  agree : forall x y, Given x -> Given y -> (element.agree x y).Plain Known
  display : forall x, Given x -> (element.display x).Plain Known
  debug : forall x, Given x -> (element.debug x).Plain Known
  format : element.format.Plain Known Given

namespace Shelf

def Shows (shelf : Shelf α) (outline : Outline α) : Prop :=
  List.Forall₂ Stands shelf.versions.toList outline

def Has (shelf : Shelf α) (s : Sequence α) : Prop :=
  exists number, s = shelf.version number

theorem Shows.size_eq {shelf : Shelf α} {outline : Outline α} (h : shelf.Shows outline) :
    shelf.versions.size = outline.length := by
  rw [← h.length_eq, Array.length_toList]

theorem Shows.version {shelf : Shelf α} {outline : Outline α} (h : shelf.Shows outline)
    (number : Nat) :
    (shelf.version number).Stands (outline.version number) := by
  unfold Shelf.version Outline.version
  rw [Array.getD_eq_getD_getElem?, ← Array.getElem?_toList, List.getD_eq_getElem?_getD]
  rcases List.forall₂_iff_get.mp h with ⟨hlength, hget⟩
  by_cases hnumber : number < outline.length
  · have hnumber' : number < shelf.versions.toList.length := hlength ▸ hnumber
    rw [List.getElem?_eq_getElem hnumber, List.getElem?_eq_getElem hnumber']
    exact hget number hnumber' hnumber
  · have hnumber := Nat.le_of_not_lt hnumber
    rw [List.getElem?_eq_none hnumber, List.getElem?_eq_none (hlength ▸ hnumber)]
    exact stands_emptyAt 0

theorem Shows.push {shelf : Shelf α} {outline : Outline α} (h : shelf.Shows outline)
    {s : Sequence α} {xs : List α} (hs : s.Stands xs) :
    (shelf.push s).2.Shows (outline.push xs).2 := by
  unfold Shows Shelf.push Outline.push
  rw [Array.toList_push]
  exact List.rel_append h (.cons hs .nil)

theorem has_of_mem {shelf : Shelf α} {s : Sequence α} (hs : s ∈ shelf.versions) :
    shelf.Has s := by
  rcases Array.getElem_of_mem hs with ⟨number, hnumber, rfl⟩
  exact ⟨number, by simp [Shelf.version, hnumber]⟩

theorem has_of_has_push {shelf : Shelf α} {s t : Sequence α} (h : (shelf.push s).2.Has t) :
    shelf.Has t ∨ t = s := by
  rcases h with ⟨number, rfl⟩
  unfold Shelf.push Shelf.version
  rw [Array.getD_eq_getD_getElem?, Array.getElem?_push]
  split
  · exact Or.inr rfl
  · rw [← Array.getD_eq_getD_getElem?]
    exact Or.inl ⟨number, rfl⟩

structure Same {ρ σ : Type} (meaning : ρ -> σ) (taken : ρ × Shelf α) (expected : σ × Outline α) :
    Prop where
  answer : meaning taken.1 = expected.1
  shows : taken.2.Shows expected.2

theorem Shows.making {Known : Sequence α -> Prop} {shelf : Shelf α} {outline : Outline α}
    (h : shelf.Shows outline) (hhas : forall s, shelf.Has s -> Known s)
    {x : Action α (Sequence α)} {expected : Except Error (List α)}
    (hx : Makes Known x expected) :
    (do return shelf.push (← x) : Action α _).Mirrors Known
      (do return outline.push (← expected)) (Same Answer.outline) fun taken => taken.2.Has := by
  apply hx.bind
  intro s xs _hxs hs
  apply Action.mirrors_ok
  · exact ⟨congrArg₂ Outline.Answer.version h.size_eq hs.toList, h.push hs⟩
  · intro t ht _hback
    exact (has_of_has_push ht).imp_left (hhas t)

theorem Shows.answering {β : Type} {Known : Sequence α -> Prop} {shelf : Shelf α}
    {outline : Outline α} (h : shelf.Shows outline) (hhas : forall s, shelf.Has s -> Known s)
    {x : Action α β} {expected : Except Error β} (hx : Answers Known x expected)
    (answer : β -> Answer α) :
    (do return (answer (← x), shelf) : Action α _).Mirrors Known
      (do return ((answer (← expected)).outline, outline)) (Same Answer.outline)
      fun taken => taken.2.Has := by
  apply hx.bind
  rintro b _ _hb rfl
  exact Action.mirrors_ok ⟨rfl, h⟩ fun t ht _hback => Or.inl (hhas t ht)

theorem Shows.step {Known : Sequence α -> Prop} {Given : α -> Prop} {shelf : Shelf α}
    {outline : Outline α} (h : shelf.Shows outline) (hhas : forall s, shelf.Has s -> Known s)
    (hwithin : outline.Within Given) {element : Element α σ} {step : Step α}
    (hplain : step.asksElements = true -> element.Plain Known Given) (number : Nat) :
    (shelf.step element number step).Mirrors Known (outline.step element number step)
      (Same Answer.outline) fun taken => taken.2.Has := by
  have hstands := h.version number
  have hs : Known (shelf.version number) := hhas _ ⟨number, rfl⟩
  have hgiven := hwithin.version
  cases step with
  | empty =>
      exact h.making hhas (makes_empty Known)
  | clone =>
      exact h.making hhas (makes_known (fun _ => hs) hstands)
  | ofList elements =>
      exact h.making hhas (makes_ofList Known elements)
  | prepend elements =>
      exact h.making hhas (hstands.prepend Known elements)
  | append elements =>
      exact h.making hhas (hstands.append Known elements)
  | reverse =>
      exact h.making hhas (hstands.reverse Known)
  | rest =>
      exact h.making hhas (hstands.rest hs)
  | concat others =>
      have hothers : outline.version number ++ (others.map outline.version).flatten =
          (shelf.version number).toList ++
            ((others.map shelf.version).map toList).flatten := by
        simp [(h.version _).toList, Function.comp_def]
      have hparts : forall part, part ∈ shelf.version number :: others.map shelf.version ->
          Known part ∧ part.Counted := by
        rw [List.forall_mem_cons, List.forall_mem_map]
        exact ⟨⟨hs, hstands.counted⟩,
          fun other _hother => ⟨hhas _ ⟨other, rfl⟩, (h.version other).counted⟩⟩
      have hmakes := concat_makes hparts
      rw [← hothers] at hmakes
      exact h.making hhas hmakes
  | drop n =>
      exact h.making hhas (hstands.drop hs n)
  | head =>
      exact h.answering hhas (hstands.head hs) Answer.element
  | last =>
      exact h.answering hhas (hstands.last Known) Answer.element
  | get index =>
      exact h.answering hhas (hstands.get? hs index) Answer.element?
  | length =>
      exact h.answering hhas
        (answers_of_plain (Action.plain_done _) (congrArg Except.ok hstands.length_eq))
        Answer.count
  | isEmpty =>
      exact h.answering hhas
        (answers_of_plain (Action.plain_done _) (congrArg Except.ok hstands.isEmpty_eq))
        Answer.truth
  | toList =>
      exact h.answering hhas (hstands.elements hs) Answer.elements
  | draw n =>
      exact h.answering hhas (hstands.draw hs n)
        fun drawn => .drawn drawn.1.toList drawn.2.length drawn.2.sizeHint
  | agree other =>
      exact h.answering hhas
        (hstands.agree (h.version other) hs (hhas _ ⟨other, rfl⟩) fun x hx y hy =>
          (hplain rfl).agree x y (hgiven number x hx) (hgiven other y hy))
        Answer.truth
  | same other =>
      exact h.answering hhas
        (hstands.same (h.version other) hs (hhas _ ⟨other, rfl⟩) fun x hx y hy =>
          (hplain rfl).agree x y (hgiven number x hx) (hgiven other y hy))
        Answer.truth
  | display =>
      exact h.answering hhas
        (hstands.shown hs (fun x hx => (hplain rfl).display x (hgiven number x hx)) _)
        Answer.text
  | debug =>
      exact h.answering hhas
        (hstands.shown hs (fun x hx => (hplain rfl).debug x (hgiven number x hx)) _)
        Answer.text
  | serialize =>
      exact h.answering hhas (hstands.serialized hs (hplain rfl).format (hgiven number))
        Answer.text

theorem Shows.attempt {Known : Sequence α -> Prop} {Given : α -> Prop} {shelf : Shelf α}
    {outline : Outline α} (h : shelf.Shows outline) (hhas : forall s, shelf.Has s -> Known s)
    (hwithin : outline.Within Given) {element : Element α σ} {step : Step α}
    (hplain : step.asksElements = true -> element.Plain Known Given) (number : Nat) :
    (shelf.attempt element number step).Mirrors Known
      (.ok (outline.attempt element number step)) (Same (Except.map Answer.outline))
      fun taken => taken.2.Has := by
  have hattempt : (.ok (outline.attempt element number step) : Except Error _) =
      (do
        let (answer, outline) ← outline.step element number step
        return (Except.ok answer, outline)).tryCatch
          fun error => return (Except.error error, outline) := by
    unfold Outline.attempt
    cases outline.step element number step with
    | error error =>
        rfl
    | ok taken =>
        rfl
  rw [hattempt]
  apply Action.Mirrors.recover
  · apply (h.step hhas hwithin hplain number).bind
    intro taken expected _hexpected hsame
    apply Action.mirrors_ok
    · exact ⟨congrArg Except.ok hsame.answer, hsame.shows⟩
    · exact fun s hs _hback => Or.inr hs
  · intro error
    apply Action.mirrors_ok ⟨rfl, h⟩
    exact fun s hs _hback => hhas s hs

theorem Shows.attemptAll {Held Known : Sequence α -> Prop} {Given : α -> Prop} {shelf : Shelf α}
    {outline : Outline α} (h : shelf.Shows outline) (hheld : forall s, Held s -> Known s)
    (hhas : forall s, shelf.Has s -> Known s) (hwithin : outline.Within Given)
    {element : Element α σ} {steps : List (Nat × Step α)}
    (hgiven : forall x, x ∈ steps.flatMap (fun step => step.2.elements) -> Given x)
    (hplain : (exists step, step ∈ steps ∧ step.2.asksElements = true) ->
      forall Known, (forall s, Held s -> Known s) -> element.Plain Known Given) :
    (shelf.attemptAll element steps).Mirrors Known (.ok (outline.attemptAll element steps))
      (Same (List.map (Except.map Answer.outline))) fun taken => taken.2.Has := by
  -- the known sequences grow with every version; `Held` is what the elements may name
  induction steps generalizing Known shelf outline with
  | nil =>
      exact Action.mirrors_ok ⟨rfl, h⟩ fun s hs _hback => hhas s hs
  | cons step rest ih =>
      rw [List.flatMap_cons, List.forall_mem_append] at hgiven
      have hstep : step.2.asksElements = true -> element.Plain Known Given :=
        fun hasks => hplain ⟨step, List.mem_cons_self, hasks⟩ Known hheld
      have hrest : (exists step, step ∈ rest ∧ step.2.asksElements = true) ->
          forall Known, (forall s, Held s -> Known s) -> element.Plain Known Given := by
        rintro ⟨later, hlater, hasks⟩
        exact hplain ⟨later, List.mem_cons_of_mem _ hlater, hasks⟩
      have hextends := hwithin.attempt element step.1 hgiven.1
      apply (h.attempt hhas hwithin hstep step.1).bind (g := fun attempted =>
        Except.ok (attempted.1 :: (attempted.2.attemptAll element rest).1,
          (attempted.2.attemptAll element rest).2))
      rintro taken expected hexpected hsame
      cases hexpected
      apply (ih hsame.shows (fun s hs => Or.inl (hheld s hs)) (fun s hs => Or.inr hs)
        hextends.within hgiven.2 hrest).bind (g := fun attempted =>
          Except.ok ((outline.attempt element step.1 step.2).1 :: attempted.1, attempted.2))
      rintro taken' expected' _hexpected' hsame'
      apply Action.mirrors_ok
      · exact ⟨congrArg₂ List.cons hsame.answer hsame'.answer, hsame'.shows⟩
      · exact fun s hs _hback => Or.inr hs

theorem mirrors_start (Known : Sequence α -> Prop) :
    (start : Action α (Shelf α)).Mirrors Known (.ok Outline.start) Shows Has := by
  apply (makes_empty Known).bind (g := fun xs => .ok [xs])
  intro s xs _hxs hs
  apply Action.mirrors_ok
  · exact .cons hs .nil
  · intro t ht hback
    have ht : (Shelf.push ⟨#[]⟩ s).2.Has t := ht
    rcases has_of_has_push ht with ⟨number, rfl⟩ | ht
    · exact (hback rfl).elim
    · exact Or.inr ht

theorem mirrors_run {element : Element α σ} {Held : Sequence α -> Prop}
    {steps : List (Nat × Step α)}
    (hplain : (exists step, step ∈ steps ∧ step.2.asksElements = true) ->
      forall Known, (forall s, Held s -> Known s) ->
        element.Plain Known fun x => x ∈ steps.flatMap fun step => step.2.elements) :
    (run element steps).Mirrors Held (.ok (Outline.run element steps))
      (Same (List.map (Except.map Answer.outline))) fun taken => taken.2.Has := by
  apply (mirrors_start Held).bind (g := fun outline => .ok (outline.attemptAll element steps))
  rintro shelf outline houtline hshows
  cases houtline
  exact hshows.attemptAll (fun _ => Or.inl) (fun _ => Or.inr) (Outline.within_start _)
    (fun _ => id) hplain

/--
Taken through any steps from the start, a shelf answers as an outline does and is refused as it is.
Every version counts its chains rightly and stands for the list written down when it was made,
which no later step changes. So what `rest` takes one from is never nothing, and the cells stay
right for all versions. Only if steps have elements compared or shown is that supposed not to
depend on what cells keep.
-/
theorem run_like_outline (element : Element α σ) {Held : Sequence α -> Prop} {cells : Cells α}
    (hcells : cells.Stocked Held) (steps : List (Nat × Step α))
    (hplain : (exists step, step ∈ steps ∧ step.2.asksElements = true) ->
      forall Known, (forall s, Held s -> Known s) ->
        element.Plain Known fun x => x ∈ steps.flatMap fun step => step.2.elements) :
    exists answers shelf after,
      Cells.run (run element steps) cells = (.ok (answers, shelf), after) ∧
        answers.map (Except.map Answer.outline) = (Outline.run element steps).1 ∧
        List.Forall₂ Stands shelf.versions.toList (Outline.run element steps).2 ∧
        (forall earlier later, steps = earlier ++ later ->
          (Outline.run element earlier).2 <+: (Outline.run element steps).2) ∧
        (forall s, s ∈ shelf.versions ->
          (s.front ≠ [] -> 1 ≤ s.frontLength) ∧ (s.toList ≠ [] -> 1 ≤ s.length)) ∧
        after.Stocked fun s => Held s ∨ s ∈ shelf.versions := by
  rcases (mirrors_run hplain).answers hcells with
    ⟨⟨answers, shelf⟩, after, hrun, hsame, hstocked⟩
  refine ⟨answers, shelf, after, hrun, hsame.answer, hsame.shows, ?_, ?_, ?_⟩
  · rintro earlier later rfl
    exact Outline.run_keeps element earlier later
  · intro s hs
    rcases has_of_mem hs with ⟨number, rfl⟩
    exact (hsame.shows.version number).counted.one_le
  · apply hstocked.mono
    intro s hs _hback
    exact hs.imp_right has_of_mem

end Shelf

def Element.digit : Element Nat (List String) where
  agree x y := return x % 10 == y % 10
  display x := return if x = 0 then "none" else "some"
  debug x := return if x = 0 then "none" else "some"
  format :=
    { start := fun _ => return []
      element := fun written x => return (if x = 0 then "none" else "some") :: written
      finish := fun written => return " ".intercalate written.reverse }

theorem Element.plain_digit (Known : Sequence Nat -> Prop) (Given : Nat -> Prop) :
    Element.digit.Plain Known Given where
  agree := fun _ _ _ _ => Action.plain_done _
  display := fun _ _ => Action.plain_done _
  debug := fun _ _ => Action.plain_done _
  format :=
    { start := fun _ => Action.plain_done _
      element := fun _ _ _ => Action.plain_done _
      finish := fun _ => Action.plain_done _ }

/-- A copy that shares a cell, joins with empty and repeated parts, refusals, and late questions. -/
theorem Shelf.run_like_outline_digit :
    exists answers shelf after,
      Cells.run (Shelf.run Element.digit
        [(0, .append [1, 2]), (1, .clone), (2, .head), (1, .prepend [0]), (3, .rest),
          (3, .concat [0, 1, 1]), (5, .toList), (0, .last), (0, .rest), (5, .reverse),
          (6, .draw 8), (4, .agree 2), (6, .drop 9), (2, .display), (3, .serialize),
          (1, .toList)])
        Cells.empty = (.ok (answers, shelf), after) ∧
        answers.map (Except.map Answer.outline) =
          [.ok (.version 1 [1, 2]), .ok (.version 2 [1, 2]), .ok (.element 1),
            .ok (.version 3 [0, 1, 2]), .ok (.version 4 [1, 2]),
            .ok (.version 5 [0, 1, 2, 1, 2, 1, 2]), .ok (.elements [0, 1, 2, 1, 2, 1, 2]),
            .error (.emptyCollection .last), .error (.emptyCollection .rest),
            .ok (.version 6 [2, 1, 2, 1, 2, 1, 0]),
            .ok (.drawn [some 2, some 1, some 2, some 1, some 2, some 1, some 0, none] 0
              (0, some 0)),
            .ok (.truth true), .error (.emptyCollection .rest), .ok (.text "[some, some]"),
            .ok (.text "none some some"), .ok (.elements [1, 2])] := by
  rcases Shelf.run_like_outline Element.digit (Cells.stocked_none Cells.empty) _
    (fun _ _ _ => Element.plain_digit _ _) with ⟨answers, shelf, after, hrun, hanswers, _⟩
  exact ⟨answers, shelf, after, hrun, hanswers.trans rfl⟩

end Sequence

end ValueStore
