import ValueStore.Proofs.Json.Format
import ValueStore.Proofs.Json.Source
import ValueStore.Proofs.Nested
import ValueStore.Proofs.Sequence.Versions
import ValueStore.Value.Element

/-!
# Sequences are read back

Whatever made a sequence, what is written for it is written for its elements in order, and
a sequence of these elements is read from it.
-/

namespace ValueStore

variable {π ω ι σ τ : Type}

theorem Sequence.Shelf.run_serialize {α ς : Type} {format : Format α π ω σ τ}
    (hformat : forall Known, format.Plain Known) (codec : Codec α π ω ι) (element : Element α ς)
    {Held : Sequence α -> Prop} {cells : Cells α} (hcells : cells.Stocked Held)
    {steps : List (Nat × Step α)}
    (hplain : (exists step, step ∈ steps ∧ step.2.asksElements = true) ->
      forall Known, (forall s, Held s -> Known s) ->
        element.Plain Known fun x => x ∈ steps.flatMap fun step => step.2.elements)
    (hready : forall x, x ∈ steps.flatMap (fun step => step.2.elements) -> codec.Ready Held x) :
    exists answers shelf after,
      Cells.run (run element steps) cells = (.ok (answers, shelf), after) ∧
        forall s, s ∈ shelf.versions -> s.Matches codec.Same s ∧ forall place,
          (Cells.run (s.serialize (format.list place codec.write)) after).1 =
            (s.serialize (format.list place codec.write)).eval := by
  rcases (mirrors_run hplain).answers hcells with
    ⟨⟨answers, shelf⟩, after, hrun, ⟨_hanswers, hshows⟩, hstocked⟩
  refine ⟨answers, shelf, after, hrun, ?_⟩
  intro s hs
  rcases has_of_mem hs with ⟨number, rfl⟩
  have hwithin := (Outline.within_run element steps).version number
  have hstands := hshows.version number
  have helements : forall x, x ∈ (shelf.version number).toList -> codec.Ready Held x := by
    intro x hx
    rw [hstands.toList] at hx
    exact hready x (hwithin x hx)
  constructor
  · exact ⟨hstands.counted, hstands.counted,
      List.forall₂_same.mpr fun x hx => (helements x hx).same⟩
  · intro place
    have hwrite : (format.list place codec.write).Plain (fun s => Held s ∨ shelf.Has s)
        (codec.Ready Held) :=
      (hformat _).list (fun x hx => hx.plain _ fun _ => Or.inl) place
    exact (plain_serialize hwrite (Or.inr ⟨number, rfl⟩) helements after hstocked.faithful).1

/--
If what is written for elements is read back, so is what is written for sequences of them, as far
as nesting is allowed: sequences of the same elements have one text, from which a sequence of the
same elements is read, with a cell of its own. This holds of integers and strings, and of
sequences of these to any depth. Whatever steps have put a sequence on a shelf, and whatever cells
keep by then, that text is what is written for it.
-/
theorem sequences_read_back (grammar : Grammar π ω ι σ)
    (format : forall α : Type, Format α π ω σ τ) (source : Source ω ι)
    (hshared : forall α, grammar.SharedBy (format α) source)
    (hformat : forall (α : Type) Known, (format α).Plain Known) :
    (forall (α : Type) (codec : Codec α π ω ι) (room : Nat), codec.ReadsBack grammar room ->
        ((room + 1 : Nat) : ENat) ≤ grammar.limit ->
          codec.SequencesReadBack grammar (format α) source) ∧
      (forall shape : Shape, ((shape.depth + 1 : Nat) : ENat) ≤ grammar.limit ->
        (shape.codec (format Nested) source).SequencesReadBack grammar (format Nested) source) ∧
      (forall (shape : Shape) (Held : Sequence Nested -> Prop) (x : Nested),
        shape.Throughout (fun s => s.Counted ∧ Held s) x ->
          (shape.codec (format Nested) source).Ready Held x) ∧
      forall (α ς : Type) (codec : Codec α π ω ι) (element : Sequence.Element α ς)
        (Held : Sequence α -> Prop) (cells : Cells α) (steps : List (Nat × Sequence.Step α)),
        cells.Stocked Held ->
        ((exists step, step ∈ steps ∧ step.2.asksElements = true) ->
          forall Known, (forall s, Held s -> Known s) ->
            element.Plain Known fun x => x ∈ steps.flatMap fun step => step.2.elements) ->
        (forall x, x ∈ steps.flatMap (fun step => step.2.elements) -> codec.Ready Held x) ->
          exists answers shelf after,
            Cells.run (Sequence.Shelf.run element steps) cells = (.ok (answers, shelf), after) ∧
              forall s, s ∈ shelf.versions -> s.Matches codec.Same s ∧ forall place,
                (Cells.run (s.serialize ((format α).list place codec.write)) after).1 =
                  (s.serialize ((format α).list place codec.write)).eval := by
  refine ⟨?_, ?_, ?_, ?_⟩
  · exact fun α _codec _room hreads hroom => hreads.sequences (hshared α) hroom
  · exact fun shape hroom => (shape.readsBack (hshared Nested)).sequences (hshared Nested) hroom
  · exact fun shape _Held _x hx => shape.ready (hformat Nested) source hx
  · exact fun α _ς codec element _Held _cells _steps hcells hplain hready =>
      Sequence.Shelf.run_serialize (hformat α) codec element hcells hplain hready

def Codec.int64 (format : Format Int64 π ω σ τ) (source : Source ω ι) : Codec Int64 π ω ι where
  write n place := format.integer place n
  read input := Action.ofExcept (source.integer input)
  Same := Eq

def rows : Sequence Nested :=
  ⟨[.sequence ⟨[.integer 1], 1, [.integer 3, .integer (-2)], 2, 4⟩], 1,
    [.sequence ⟨[], 0, [], 0, 0⟩], 1, 7⟩

theorem Codec.readsBack_int64 {grammar : Grammar π ω ι σ} {format : Format Int64 π ω σ τ}
    {source : Source ω ι} (hshared : grammar.SharedBy format source) (room : Nat) :
    (Codec.int64 format source).ReadsBack grammar room := by
  rintro n _ rfl place hplace
  rcases hshared.integer place n hplace with ⟨text, hwrite, htext, hread⟩
  refine ⟨text, hwrite, hwrite, Codec.reads_of_scalar (f := id) ?_ rfl htext (hread _)⟩
  exact fun input => (bind_pure _).symm

theorem throughout_rows :
    (Shape.sequence (.sequence .int64)).Throughout (fun s => s.Counted ∧ True)
      (.sequence rows) := by
  simp [rows, Shape.Throughout, Sequence.Counted, Sequence.toList]

theorem serialize_rows :
    (rows.serialize (Json.format.list .value
      ((Shape.sequence .int64).serialize Json.format))).eval = .ok "[[1,-2,3],[]]" := by
  decide

/-- Rows are read back from JSON, and so is whatever a shelf makes of integers. -/
theorem sequences_read_back_json :
    (exists u after,
        Cells.run (Json.source.read (Sequence.deserialize Json.source
          ((Shape.sequence .int64).deserialize Json.source)) "[[1,-2,3],[]]") Cells.empty =
            (.ok u, after) ∧ rows.Matches (Shape.sequence .int64).Same u) ∧
      exists answers shelf after,
        Cells.run (Sequence.Shelf.run Sequence.Element.int64
          [(0, .append [1, -2]), (1, .prepend [3]), (2, .reverse), (3, .rest)]) Cells.empty =
            (.ok (answers, shelf), after) ∧
          forall s, s ∈ shelf.versions -> exists text,
            (Cells.run (s.serialize (Json.format.list .value fun n place =>
              Json.format.integer place n)) after).1 = .ok text ∧
              forall cells, exists t after',
                Cells.run (Json.source.read (Sequence.deserialize Json.source fun input =>
                  Action.ofExcept (Json.source.integer input)) text) cells = (.ok t, after') ∧
                  t.toList = s.toList := by
  rcases sequences_read_back Json.grammar (fun _ => Json.format) Json.source
    (fun _ => Json.sharedBy_source) (fun _ _ => Json.plain_format) with
      ⟨hall, hshapes, hready, hshelf⟩
  constructor
  · have hmatches : rows.Matches (Shape.sequence .int64).Same rows :=
      (hready (.sequence (.sequence .int64)) (fun _ => True) (.sequence rows)
        throughout_rows).same
    have hroom : ((2 : Nat) : ENat) ≤ Json.nestingLimit :=
      Nat.cast_le.mpr (by decide)
    rcases hshapes (.sequence .int64) hroom .value rfl rows rows hmatches with
      ⟨text, htext, _htext, hread⟩
    rcases hread Cells.empty with ⟨u, after, hrun, hsame, _hnew⟩
    cases serialize_rows.symm.trans htext
    exact ⟨u, after, hrun, hsame⟩
  · have hroom : ((1 : Nat) : ENat) ≤ Json.nestingLimit :=
      Nat.cast_le.mpr (by decide)
    have hread := hall Int64 (.int64 Json.format Json.source) 0
      (Codec.readsBack_int64 Json.sharedBy_source 0) hroom
    rcases hshelf Int64 _ (.int64 Json.format Json.source) Sequence.Element.int64
      (fun _ => False) Cells.empty
      [(0, .append [1, -2]), (1, .prepend [3]), (2, .reverse), (3, .rest)]
      (Cells.stocked_none Cells.empty) (by simp [Sequence.Step.asksElements])
      (fun n _ => ⟨rfl, fun _ _ _ => Action.plain_done _⟩) with
        ⟨answers, shelf, after, hrun, hversions⟩
    refine ⟨answers, shelf, after, hrun, ?_⟩
    intro s hs
    rcases hversions s hs with ⟨hmatches, hplain⟩
    rcases hread .value rfl s s hmatches with ⟨text, htext, _htext, hread⟩
    refine ⟨text, (hplain .value).trans htext, ?_⟩
    intro cells
    rcases hread cells with ⟨t, after', hrun, hsame, _hnew⟩
    exact ⟨t, after', hrun, (List.forall₂_eq_eq_eq ▸ hsame.elements).symm⟩

end ValueStore
