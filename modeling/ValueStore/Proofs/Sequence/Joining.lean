import ValueStore.Proofs.Sequence.Asking
import ValueStore.Proofs.Sequence.Versions
import ValueStore.Value.Element

/-!
# Chains are joined once

Versions that name the same cell are the same sequence, and a cell that keeps something
keeps the elements of that sequence. So it does not matter which of them is read first:
the first reading that needs the back chain joins the chains, which is logged, and all
readings after it, of whichever version, find the cell filled.
-/

namespace ValueStore

namespace Sequence

variable {α σ : Type}

structure Element.Still (element : Element α σ) : Prop where
  agree : forall x y, (element.agree x y).Still
  display : forall x, (element.display x).Still
  debug : forall x, (element.debug x).Still
  format : element.format.Still

theorem Element.Still.plain {element : Element α σ} (h : element.Still)
    (Known : Sequence α -> Prop) (Given : α -> Prop) :
    element.Plain Known Given where
  agree := fun x y _ _ => (h.agree x y).plain
  display := fun x _ => (h.display x).plain
  debug := fun x _ => (h.debug x).plain
  format := h.format.plain Known Given

/-! ## Cells and the sequences that name them -/

/--
The sequences held name cells that have been given out, only equal ones name the same, and what a
cell keeps is what the sequences that name it stand for.
-/
structure Keyed (cells : Cells α) (Held : Sequence α -> Prop) : Prop where
  given : forall s, Held s -> s.cell < cells.chains.size
  apart : forall s t, Held s -> Held t -> s.cell = t.cell -> s = t
  kept : forall s elements, Held s -> cells.kept? s.cell = some elements -> elements = s.toList

theorem Keyed.mono {cells : Cells α} {Held Held' : Sequence α -> Prop} (h : Keyed cells Held)
    (hheld : forall s, Held' s -> Held s) :
    Keyed cells Held' where
  given := fun s hs => h.given s (hheld s hs)
  apart := fun s t hs ht => h.apart s t (hheld s hs) (hheld t ht)
  kept := fun s elements hs => h.kept s elements (hheld s hs)

theorem Keyed.stocked {cells : Cells α} {Held : Sequence α -> Prop} (h : Keyed cells Held) :
    cells.Stocked Held where
  faithful :=
    { kept := fun s elements hs _hback => h.kept s elements hs
      shared := fun s t hs ht _hsback _htback hcell =>
        congrArg Sequence.toList (h.apart s t hs ht hcell) }
  given := fun s hs _hback => h.given s hs

theorem Keyed.asks {β : Type} {cells after : Cells α} {Held : Sequence α -> Prop}
    (h : Keyed cells Held) {x : Action α β} {asked : List (Sequence α)}
    {outcome : Except Error β} (hasks : x.Asks cells asked outcome after)
    (hasked : forall s, s ∈ asked -> Held s ∨ cells.chains.size ≤ s.cell) :
    Keyed after Held where
  given := fun s hs => Nat.lt_of_lt_of_le (h.given s hs) hasks.size_le
  apart := h.apart
  kept := by
    intro s elements hs hkept
    rcases hasks.kept hkept with hbefore | ⟨t, ht, hcell, helements⟩
    · exact h.kept s elements hs hbefore
    · -- the sequence that filled the cell names it as well, so it is this one
      rcases hasked t ht with hheld | hnew
      · rw [helements, h.apart t s hheld hs hcell]
      · have hgiven := h.given s hs
        rw [← hcell] at hgiven
        exact (Nat.not_lt.mpr hnew hgiven).elim

theorem Keyed.new {cells after : Cells α} {Held : Sequence α -> Prop} (h : Keyed after Held)
    (hbefore : forall s, Held s -> s.cell < cells.chains.size) {s : Sequence α}
    (hnew : s.New cells after) :
    Keyed after fun t => Held t ∨ t = s := by
  have hapart : forall t, Held t -> t.cell ≠ s.cell :=
    fun t ht => Nat.ne_of_lt (Nat.lt_of_lt_of_le (hbefore t ht) hnew.fresh)
  constructor
  · intro t ht
    rcases ht with ht | rfl
    · exact h.given t ht
    · exact hnew.given
  · intro t u ht hu hcell
    rcases ht with ht | rfl
    · rcases hu with hu | rfl
      · exact h.apart t u ht hu hcell
      · exact (hapart t ht hcell).elim
    · rcases hu with hu | rfl
      · exact (hapart u hu hcell.symm).elim
      · rfl
  · intro t elements ht hkept
    rcases ht with ht | rfl
    · exact h.kept t elements ht hkept
    · rw [hnew.empty] at hkept
      cases hkept

namespace Shelf

/-! ## What steps need -/

/-- The sequences of which a step needs the elements in order, given the next cell to give out. -/
def needs (shelf : Shelf α) (next : CellId) (number : Nat) : Step α -> List (Sequence α)
  | .head => if (shelf.version number).front.isEmpty then [shelf.version number] else []
  | .rest => if (shelf.version number).front.isEmpty then [shelf.version number] else []
  | .drop n =>
      if (shelf.version number).front.length < n then
        [(shelf.version number).exhausted next]
      else
        []
  | .concat others => ((shelf.version number).parts (others.map shelf.version)).tail
  | .agree other =>
      if (shelf.version number).length = (shelf.version other).length then
        [shelf.version number, shelf.version other]
      else
        []
  | .same other =>
      if (shelf.version number).length = (shelf.version other).length then
        [shelf.version number, shelf.version other]
      else
        []
  | .get _ => [shelf.version number]
  | .toList => [shelf.version number]
  | .draw _ => [shelf.version number]
  | .display => [shelf.version number]
  | .debug => [shelf.version number]
  | .serialize => [shelf.version number]
  | _ => []

def needsAll (element : Element α σ) (shelf : Shelf α) (cells : Cells α) :
    List (Nat × Step α) -> List (Sequence α)
  | [] => []
  | (number, step) :: rest =>
      shelf.needs cells.chains.size number step ++
        match Cells.run (shelf.attempt element number step) cells with
        | (.ok (_, shelf), cells) => shelf.needsAll element cells rest
        | (.error _, _) => []

def shares (shelf : Shelf α) (number : Nat) : Step α -> Option (Sequence α)
  | .clone => some (shelf.version number)
  | .drop n => if n = 0 then some (shelf.version number) else none
  | .concat others =>
      let parts := (shelf.version number).parts (others.map shelf.version)
      if parts.tail.isEmpty then parts.head? else none
  | _ => none

theorem has_version (shelf : Shelf α) (number : Nat) :
    shelf.Has (shelf.version number) :=
  ⟨number, rfl⟩

theorem has_of_mem_parts {shelf : Shelf α} {number : Nat} {others : List Nat} {s : Sequence α}
    (hs : s ∈ (shelf.version number).parts (others.map shelf.version)) :
    shelf.Has s := by
  have hmem := List.mem_of_mem_filter (List.mem_reverse.mp hs)
  rcases List.mem_cons.mp hmem with rfl | hmem
  · exact shelf.has_version number
  · rcases List.mem_map.mp hmem with ⟨other, _hother, rfl⟩
    exact shelf.has_version other

theorem has_or_le_of_mem_exhausted {shelf : Shelf α} (number : Nat) (next : CellId) :
    shelf.Has ((shelf.version number).exhausted next) ∨
      next ≤ ((shelf.version number).exhausted next).cell := by
  unfold exhausted
  split
  · exact Or.inl (shelf.has_version number)
  · exact Or.inr (Nat.le_add_right next _)

theorem has_of_mem_needs {shelf : Shelf α} {next : CellId} {number : Nat} {step : Step α}
    {s : Sequence α} (hs : s ∈ shelf.needs next number step) :
    shelf.Has s ∨ next ≤ s.cell := by
  have hone : s ∈ [shelf.version number] -> shelf.Has s ∨ next ≤ s.cell := by
    intro hs
    rw [List.mem_singleton.mp hs]
    exact Or.inl (shelf.has_version number)
  have htwo : forall other, s ∈ [shelf.version number, shelf.version other] ->
      shelf.Has s ∨ next ≤ s.cell := by
    intro other hs
    rcases List.mem_cons.mp hs with rfl | hs
    · exact Or.inl (shelf.has_version number)
    · rw [List.mem_singleton.mp hs]
      exact Or.inl (shelf.has_version other)
  cases step with
  | head =>
      exact hone (List.mem_ite_nil_right.mp hs).2
  | rest =>
      exact hone (List.mem_ite_nil_right.mp hs).2
  | drop n =>
      rw [List.mem_singleton.mp (List.mem_ite_nil_right.mp hs).2]
      exact has_or_le_of_mem_exhausted number next
  | concat others =>
      exact Or.inl (has_of_mem_parts (List.mem_of_mem_tail hs))
  | agree other =>
      exact htwo other (List.mem_ite_nil_right.mp hs).2
  | same other =>
      exact htwo other (List.mem_ite_nil_right.mp hs).2
  | get index =>
      exact hone hs
  | toList =>
      exact hone hs
  | draw n =>
      exact hone hs
  | display =>
      exact hone hs
  | debug =>
      exact hone hs
  | serialize =>
      exact hone hs
  | _ =>
      cases hs

theorem has_of_shares {shelf : Shelf α} {number : Nat} {step : Step α} {s : Sequence α}
    (hs : shelf.shares number step = some s) :
    shelf.Has s := by
  cases step with
  | clone =>
      cases hs
      exact shelf.has_version number
  | drop n =>
      rcases eq_of_shared hs with ⟨rfl, _hn⟩
      exact shelf.has_version number
  | concat others =>
      unfold shares at hs
      dsimp only at hs
      split at hs
      · exact has_of_mem_parts (List.mem_of_head? hs)
      · cases hs
  | _ =>
      cases hs

/-! ## One step -/

inductive Leaves (shelf : Shelf α) (shared : Option (Sequence α)) (cells after : Cells α) :
    Answer α × Shelf α -> Prop where
  | same {answer : Answer α} :
      (forall number s, answer ≠ .version number s) ->
      Leaves shelf shared cells after (answer, shelf)
  | pushed {s : Sequence α} :
      shared = some s ∨ shared = none ∧ s.New cells after ->
      Leaves shelf shared cells after (shelf.push s)

def Takes (shelf : Shelf α) (x : Action α (Answer α × Shelf α)) (cells : Cells α)
    (asked : List (Sequence α)) (shared : Option (Sequence α)) : Prop :=
  exists outcome after, x.Asks cells (chained asked) outcome after ∧
    forall taken, outcome = .ok taken -> shelf.Leaves shared cells after taken

theorem takes_making {shelf : Shelf α} {x : Action α (Sequence α)} {cells : Cells α}
    {asked : List (Sequence α)} {shared : Option (Sequence α)}
    (hx : AsksMaking x cells (chained asked) shared) :
    shelf.Takes (do return shelf.push (← x)) cells asked shared := by
  rcases hx with ⟨outcome, after, hasks, hmade⟩
  refine ⟨_, after, hasks.map shelf.push, ?_⟩
  intro taken htaken
  cases outcome with
  | error error =>
      cases htaken
  | ok s =>
      cases htaken
      exact Leaves.pushed (hmade s rfl)

theorem takes_answering {β : Type} {shelf : Shelf α} {x : Action α β} {cells : Cells α}
    {asked : List (Sequence α)} {shared : Option (Sequence α)}
    (hx : AsksFor x cells (chained asked)) (answer : β -> Answer α)
    (hanswer : forall b number s, answer b ≠ .version number s) :
    shelf.Takes (do return (answer (← x), shelf)) cells asked shared := by
  rcases hx with ⟨outcome, after, hasks⟩
  refine ⟨_, after, hasks.map fun b => (answer b, shelf), ?_⟩
  intro taken htaken
  cases outcome with
  | error error =>
      cases htaken
  | ok b =>
      cases htaken
      exact Leaves.same (hanswer b)

theorem takes_step {shelf : Shelf α} {cells : Cells α}
    (hready : forall number, (shelf.version number).Ready cells) {element : Element α σ}
    (hstill : element.Still) (number : Nat) (step : Step α) :
    shelf.Takes (shelf.step element number step) cells
      (shelf.needs cells.chains.size number step) (shelf.shares number step) := by
  have hversion := hready number
  have hnothing : forall {β : Type} (b : β), AsksFor (Action.done b) cells (chained []) :=
    fun b => asksFor_still (Action.Still.done b) cells
  cases step with
  | empty =>
      exact takes_making (asksMaking_fresh (fun _ => rfl) cells)
  | clone =>
      have hclone : AsksMaking (return shelf.version number) cells (chained [])
          (some (shelf.version number)) :=
        asksMaking_shared _ cells
      exact takes_making hclone
  | ofList elements =>
      exact takes_making (asksMaking_fresh (fun _ => rfl) cells)
  | prepend elements =>
      exact takes_making (asksMaking_fresh (fun _ => rfl) cells)
  | append elements =>
      exact takes_making (asksMaking_fresh (fun _ => rfl) cells)
  | reverse =>
      exact takes_making (asksMaking_fresh (fun _ => rfl) cells)
  | rest =>
      exact takes_making hversion.rest
  | concat others =>
      apply takes_making
      apply concat_asks
      rw [List.forall_mem_cons, List.forall_mem_map]
      exact ⟨hversion, fun other _hother => hready other⟩
  | drop n =>
      exact takes_making (hversion.drop n)
  | head =>
      exact takes_answering hversion.head Answer.element (by simp)
  | last =>
      exact takes_answering (asksFor_last _ cells) Answer.element (by simp)
  | get index =>
      exact takes_answering (hversion.reading fun _ => Action.Still.done _) Answer.element?
        (by simp)
  | length =>
      exact takes_answering (hnothing (shelf.version number).length) Answer.count (by simp)
  | isEmpty =>
      exact takes_answering (hnothing (shelf.version number).isEmpty) Answer.truth (by simp)
  | toList =>
      exact takes_answering (hversion.reading Action.Still.done) Answer.elements (by simp)
  | draw n =>
      have hdraw : AsksFor (do return (← (shelf.version number).cursor).draw n) cells
          (chained [shelf.version number]) :=
        hversion.reading fun _ => Action.Still.done _
      exact takes_answering hdraw (fun drawn =>
        .drawn drawn.1.toList drawn.2.length drawn.2.sizeHint) (by simp)
  | agree other =>
      exact takes_answering (hversion.agree (hready other) hstill.agree) Answer.truth (by simp)
  | same other =>
      refine takes_answering (hversion.agree (hready other) ?_) Answer.truth (by simp)
      exact fun x y => (hstill.agree x y).recover fun _ => Action.Still.done false
  | display =>
      exact takes_answering (hversion.shown hstill.display _) Answer.text (by simp)
  | debug =>
      exact takes_answering (hversion.shown hstill.debug _) Answer.text (by simp)
  | serialize =>
      exact takes_answering (hversion.serialize hstill.format) Answer.text (by simp)

/-! ## Steps one after the other -/

/-- A shelf that shows some outline, with cells that are right for everything on it. -/
structure Tended (shelf : Shelf α) (cells : Cells α) : Prop where
  shows : exists outline, shelf.Shows outline
  keyed : Keyed cells shelf.Has

theorem Tended.ready {shelf : Shelf α} {cells : Cells α} (h : shelf.Tended cells) (number : Nat) :
    (shelf.version number).Ready cells := by
  rcases h.shows with ⟨outline, hshows⟩
  exact ⟨(hshows.version number).counted, h.keyed.given _ (shelf.has_version number)⟩

def Placed (shelf : Shelf α) (number : Nat) (step : Step α) (s : Sequence α) : Prop :=
  shelf.shares number step = some s ∨
    shelf.shares number step = none ∧ forall t, shelf.Has t -> t.cell ≠ s.cell

theorem Leaves.keyed {shelf : Shelf α} {number : Nat} {step : Step α} {cells after : Cells α}
    {taken : Answer α × Shelf α}
    (h : shelf.Leaves (shelf.shares number step) cells after taken)
    (hgiven : forall s, shelf.Has s -> s.cell < cells.chains.size)
    (hkeyed : Keyed after shelf.Has) :
    Keyed after taken.2.Has := by
  cases h with
  | same _hanswer =>
      exact hkeyed
  | pushed hmade =>
      rcases hmade with hshared | ⟨_hnone, hnew⟩
      · apply hkeyed.mono
        intro t ht
        rcases has_of_has_push ht with ht | rfl
        · exact ht
        · exact has_of_shares hshared
      · exact (hkeyed.new hgiven hnew).mono fun t ht => has_of_has_push ht

theorem Leaves.placed {shelf : Shelf α} {number : Nat} {step : Step α} {cells after : Cells α}
    {taken : Answer α × Shelf α}
    (h : shelf.Leaves (shelf.shares number step) cells after taken)
    (hgiven : forall s, shelf.Has s -> s.cell < cells.chains.size) {number' : Nat}
    {s : Sequence α} (hanswer : taken.1 = .version number' s) :
    shelf.Placed number step s := by
  cases h with
  | same hnot =>
      exact (hnot number' s hanswer).elim
  | pushed hmade =>
      cases hanswer
      apply hmade.imp_right
      rintro ⟨hnone, hnew⟩
      exact ⟨hnone, fun t ht => Nat.ne_of_lt (Nat.lt_of_lt_of_le (hgiven t ht) hnew.fresh)⟩

theorem Tended.shows_attempt {shelf left : Shelf α} {cells after : Cells α}
    (h : shelf.Tended cells) {element : Element α σ} (hstill : element.Still) {number : Nat}
    {step : Step α} {answer : Except Error (Answer α)}
    (hrun : Cells.run (shelf.attempt element number step) cells = (.ok (answer, left), after)) :
    exists outline, left.Shows outline := by
  rcases h.shows with ⟨outline, hshows⟩
  have hwithin : outline.Within fun _ => True := fun _ _ _ _ => trivial
  have hplain : step.asksElements = true -> element.Plain shelf.Has fun _ => True :=
    fun _ => hstill.plain _ _
  have hmirrors := hshows.attempt (fun _ hs => hs) hwithin hplain number
  rcases hmirrors.answers h.keyed.stocked with ⟨taken, after', htaken, hsame, _hstocked⟩
  cases htaken.symm.trans hrun
  exact ⟨_, hsame.shows⟩

theorem Tended.attempt {shelf : Shelf α} {cells : Cells α} (h : shelf.Tended cells)
    {element : Element α σ} (hstill : element.Still) (number : Nat) (step : Step α) :
    exists answer left after,
      (shelf.attempt element number step).Asks cells
        (chained (shelf.needs cells.chains.size number step)) (.ok (answer, left)) after ∧
      left.Tended after ∧
      forall number' s, answer = .ok (.version number' s) -> shelf.Placed number step s := by
  rcases takes_step h.ready hstill number step with ⟨outcome, after, hasks, hleaves⟩
  have hattempt := (hasks.map fun taken => (Except.ok taken.1, taken.2)).recover fun error =>
    (Except.error error, shelf)
  have hkeyed : Keyed after shelf.Has :=
    h.keyed.asks hasks fun s hs => has_of_mem_needs (List.mem_of_mem_filter hs)
  cases outcome with
  | error error =>
      refine ⟨_, _, after, hattempt, ⟨h.shows, hkeyed⟩, ?_⟩
      intro number' s hanswer
      cases hanswer
  | ok taken =>
      have htaken := hleaves taken rfl
      refine ⟨_, _, after, hattempt,
        ⟨h.shows_attempt hstill hattempt.run_eq, htaken.keyed h.keyed.given hkeyed⟩, ?_⟩
      intro number' s hanswer
      exact htaken.placed h.keyed.given (Except.ok.inj hanswer)

theorem Tended.attemptAll {shelf : Shelf α} {cells : Cells α} (h : shelf.Tended cells)
    {element : Element α σ} (hstill : element.Still) (steps : List (Nat × Step α)) :
    exists answers left after,
      (shelf.attemptAll element steps).Asks cells (chained (shelf.needsAll element cells steps))
        (.ok (answers, left)) after ∧
      left.Tended after := by
  induction steps generalizing shelf cells with
  | nil =>
      exact ⟨[], shelf, cells, Action.Asks.done _ cells, h⟩
  | cons step rest ih =>
      rcases h.attempt hstill step.1 step.2 with ⟨answer, left, after, hasks, htended, _hplaced⟩
      rcases ih htended with ⟨answers, final, last, hrest, hfinal⟩
      have hboth := hasks.bind (f := fun attempted => do
        let later ← attempted.2.attemptAll element rest
        return (attempted.1 :: later.1, later.2))
        (hrest.map fun later => (answer :: later.1, later.2))
      refine ⟨answer :: answers, final, last, ?_, hfinal⟩
      unfold needsAll
      rw [hasks.run_eq, chained_append]
      exact hboth

/-! ## The whole run -/

def first : Shelf α :=
  { versions := #[emptyAt 0] }

theorem run_start :
    Cells.run (start : Action α (Shelf α)) Cells.empty = (.ok first, Cells.empty.allocate.2) :=
  rfl

theorem version_first (number : Nat) :
    (first : Shelf α).version number = emptyAt 0 := by
  cases number with
  | zero =>
      rfl
  | succ number =>
      rfl

theorem tended_first :
    (first : Shelf α).Tended Cells.empty.allocate.2 := by
  have hhas : forall s, (first : Shelf α).Has s -> s = emptyAt 0 := by
    rintro s ⟨number, rfl⟩
    exact version_first number
  constructor
  · exact ⟨Outline.start, .cons (stands_emptyAt 0) .nil⟩
  · constructor
    · intro s hs
      rw [hhas s hs]
      exact Nat.zero_lt_one
    · intro s t hs ht _hcell
      rw [hhas s hs, hhas t ht]
    · intro s elements _hs hkept
      rw [Cells.kept?_allocate] at hkept
      cases hkept

theorem attemptAll_concat (element : Element α σ) (shelf : Shelf α) (steps : List (Nat × Step α))
    (number : Nat) (step : Step α) :
    shelf.attemptAll element (steps ++ [(number, step)]) = (do
      let (answers, shelf) ← shelf.attemptAll element steps
      let (answer, shelf) ← shelf.attempt element number step
      return (answers ++ [answer], shelf)) := by
  induction steps generalizing shelf with
  | nil =>
      simp [Shelf.attemptAll]
  | cons step rest ih =>
      simp [Shelf.attemptAll, ih]

def needed (element : Element α σ) (steps : List (Nat × Step α)) : List (Sequence α) :=
  first.needsAll element Cells.empty.allocate.2 steps

/--
Whatever steps are taken from the start, versions that name the same cell have the same chains, and
a cell that keeps something keeps the elements of those chains in order. A step joins the chains
of the sequences that it needs, that have a back chain and whose cells are still empty, and of no
others; each time the true lengths are logged, and in the whole run no cell is logged twice. A new
version names a cell of its own, unless it is one there was.
-/
theorem run_joins_once {element : Element α σ} (hstill : element.Still)
    (steps : List (Nat × Step α)) :
    exists answers shelf after,
      Cells.run (run element steps) Cells.empty = (.ok (answers, shelf), after) ∧
        (forall i j, (shelf.version i).cell = (shelf.version j).cell ->
          (shelf.version i).front = (shelf.version j).front ∧
            (shelf.version i).back = (shelf.version j).back) ∧
        (forall i elements, after.kept? (shelf.version i).cell = some elements ->
          elements = (shelf.version i).front ++ (shelf.version i).back.reverse) ∧
        after.events.toList = (Cells.joinings [] (needed element steps)).map joining ∧
        ((Cells.joinings [] (needed element steps)).map Sequence.cell).Nodup ∧
        forall number step, exists answer larger later,
          Cells.run (run element (steps ++ [(number, step)])) Cells.empty =
              (.ok (answers ++ [answer], larger), later) ∧
            later.events.toList = after.events.toList ++
              (Cells.joinings after.filled
                (shelf.needs after.chains.size number step)).map joining ∧
            forall number' s, answer = .ok (.version number' s) ->
              shelf.Placed number step s := by
  rcases tended_first.attemptAll hstill steps with ⟨answers, shelf, after, hasks, htended⟩
  have hrun : Cells.run (run element steps) Cells.empty = (.ok (answers, shelf), after) := by
    unfold run
    rw [Cells.run_bind, run_start]
    exact hasks.run_eq
  have hlog := hasks.log
  refine ⟨answers, shelf, after, hrun, ?_, ?_, ?_, (Cells.joinings_apart _ _).1, ?_⟩
  · intro i j hcell
    have heq := htended.keyed.apart _ _ (shelf.has_version i) (shelf.has_version j) hcell
    rw [heq]
    exact ⟨rfl, rfl⟩
  · intro i elements hkept
    exact htended.keyed.kept _ _ (shelf.has_version i) hkept
  · unfold chained at hlog
    rw [Cells.joinings_filter_back] at hlog
    exact hlog
  · intro number step
    rcases htended.attempt hstill number step with ⟨answer, larger, later, hstep, _, hplaced⟩
    refine ⟨answer, larger, later, ?_, ?_, hplaced⟩
    · unfold run
      rw [Cells.run_bind, run_start]
      dsimp only
      rw [attemptAll_concat, Cells.run_bind, hasks.run_eq]
      dsimp only
      rw [Cells.run_bind, hstep.run_eq]
      rfl
    · have hlater := hstep.log
      unfold chained at hlater
      rw [Cells.joinings_filter_back] at hlater
      exact hlater

end Shelf

theorem Element.still_int64 :
    Element.int64.Still where
  agree := fun _ _ => Action.Still.done _
  display := fun _ => Action.Still.done _
  debug := fun _ => Action.Still.done _
  format :=
    { start := fun _ => ⟨[], rfl⟩
      element := fun _ _ => Action.Still.done _
      finish := fun _ => Action.Still.done _ }

def readings : List (Nat × Step Int64) :=
  [(0, .append [2, 3]), (1, .prepend [1]), (2, .clone), (3, .last), (3, .head), (3, .get 1),
    (2, .toList), (2, .rest), (4, .head), (4, .agree 1), (3, .drop 2), (0, .concat [1]),
    (6, .display)]

theorem Shelf.run_joins_once_int64 :
    exists answers shelf after,
      Cells.run (Shelf.run Element.int64 readings) Cells.empty = (.ok (answers, shelf), after) ∧
        after.events.toList = [.joined 1 2, .joined 0 2, .joined 0 2, .joined 0 2] ∧
        ((Cells.joinings [] (Shelf.needed Element.int64 readings)).map Sequence.cell).Nodup ∧
        (Cells.joinings [] (Shelf.needed Element.int64 readings)).map Sequence.cell =
          [2, 3, 1, 4] := by
  rcases Shelf.run_joins_once Element.still_int64 readings with
    ⟨answers, shelf, after, hrun, _hsame, _hkept, hlog, hnodup, _hnext⟩
  exact ⟨answers, shelf, after, hrun, hlog.trans rfl, hnodup, rfl⟩

end Sequence

end ValueStore
