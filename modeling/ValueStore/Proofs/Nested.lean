import ValueStore.Nested
import ValueStore.Proofs.Source

/-!
# Sequences of sequences are read back

Integers and strings are read back, and if what is of one shape is, then so are sequences
of it. By induction this holds to any depth, as far as nesting is allowed.
-/

namespace ValueStore

namespace Shape

variable {π ω ι σ τ : Type}

/-- Of the shape, and with the same elements in the same order, to any depth. -/
def Same : Shape -> Nested -> Nested -> Prop
  | int64, .integer n, .integer m => n = m
  | string, .string s, .string t => s = t
  | sequence element, .sequence s, .sequence t => s.Matches element.Same t
  | _, _, _ => False

def Throughout (P : Sequence Nested -> Prop) : Shape -> Nested -> Prop
  | int64, .integer _ => True
  | string, .string _ => True
  | sequence element, .sequence items =>
      P items ∧ forall x, x ∈ items.toList -> element.Throughout P x
  | _, _ => False

def codec (format : Format Nested π ω σ τ) (source : Source ω ι) (shape : Shape) :
    Codec Nested π ω ι where
  write := shape.serialize format
  read := shape.deserialize source
  Same := shape.Same

theorem exists_of_same_sequence {element : Shape} {x y : Nested}
    (h : (sequence element).Same x y) :
    exists s t, x = .sequence s ∧ y = .sequence t ∧ s.Matches element.Same t := by
  cases x with
  | integer n =>
      exact h.elim
  | string s =>
      exact h.elim
  | sequence s =>
      cases y with
      | integer n =>
          exact h.elim
      | string t =>
          exact h.elim
      | sequence t =>
          exact ⟨s, t, rfl, rfl, h⟩

section

variable {P : Sequence Nested -> Prop} {x : Nested}

theorem exists_of_throughout_int64 (h : int64.Throughout P x) :
    exists n, x = .integer n := by
  cases x with
  | integer n =>
      exact ⟨n, rfl⟩
  | string s =>
      exact h.elim
  | sequence items =>
      exact h.elim

theorem exists_of_throughout_string (h : string.Throughout P x) :
    exists s, x = .string s := by
  cases x with
  | integer n =>
      exact h.elim
  | string s =>
      exact ⟨s, rfl⟩
  | sequence items =>
      exact h.elim

theorem exists_of_throughout_sequence {element : Shape}
    (h : (sequence element).Throughout P x) :
    exists items, x = .sequence items ∧ P items ∧
      forall y, y ∈ items.toList -> element.Throughout P y := by
  cases x with
  | integer n =>
      exact h.elim
  | string s =>
      exact h.elim
  | sequence items =>
      exact ⟨items, rfl, h⟩

end

theorem readsBack {grammar : Grammar π ω ι σ} {format : Format Nested π ω σ τ}
    {source : Source ω ι} (hshared : grammar.SharedBy format source) (shape : Shape) :
    (shape.codec format source).ReadsBack grammar shape.depth := by
  induction shape with
  | int64 =>
      intro x y hxy place hplace
      cases x <;> cases y <;> cases hxy
      rename_i n
      rcases hshared.integer place n hplace with ⟨text, hwrite, htext, hread⟩
      exact ⟨text, hwrite, hwrite, Codec.reads_of_scalar (fun _ => rfl) rfl htext (hread _)⟩
  | string =>
      intro x y hxy place hplace
      cases x <;> cases y <;> cases hxy
      rename_i s
      rcases hshared.string place s hplace with ⟨text, hwrite, htext, hread⟩
      exact ⟨text, hwrite, hwrite, Codec.reads_of_scalar (fun _ => rfl) rfl htext (hread _)⟩
  | sequence element ih =>
      intro x y hxy place hplace
      rcases exists_of_same_sequence hxy with ⟨s, t, rfl, rfl, hst⟩
      rcases ih.sequence hshared hst hplace with ⟨text, hs, ht, htext, hread⟩
      refine ⟨text, hs, ht, htext, ?_⟩
      intro input rest hstands cells
      rcases hread input rest hstands cells with ⟨u, after, hrun, hsame, _hnew⟩
      refine ⟨.sequence u, after, ?_, hsame⟩
      have hrun : Cells.run (Sequence.deserialize source (element.deserialize source) input)
        cells = (.ok (u, rest), after) := hrun
      show Cells.run (Sequence.deserialize source (element.deserialize source) input >>= _)
        cells = _
      rw [Cells.run_bind, hrun]
      rfl

theorem same_self {P : Sequence Nested -> Prop} (hcounted : forall s, P s -> s.Counted)
    (shape : Shape) {x : Nested} (hx : shape.Throughout P x) :
    shape.Same x x := by
  induction shape generalizing x with
  | int64 =>
      rcases exists_of_throughout_int64 hx with ⟨n, rfl⟩
      exact rfl
  | string =>
      rcases exists_of_throughout_string hx with ⟨s, rfl⟩
      exact rfl
  | sequence element ih =>
      rcases exists_of_throughout_sequence hx with ⟨items, rfl, hitems, helements⟩
      exact ⟨hcounted items hitems, hcounted items hitems,
        List.forall₂_same.mpr fun y hy => ih (helements y hy)⟩

theorem plain_serialize {P Known : Sequence Nested -> Prop} (hknown : forall s, P s -> Known s)
    {format : Format Nested π ω σ τ} (hformat : format.Plain Known) (shape : Shape) {x : Nested}
    (hx : shape.Throughout P x) (place : π) :
    (shape.serialize format x place).Plain Known := by
  induction shape generalizing x place with
  | int64 =>
      rcases exists_of_throughout_int64 hx with ⟨n, rfl⟩
      exact hformat.integer place n
  | string =>
      rcases exists_of_throughout_string hx with ⟨s, rfl⟩
      exact hformat.string place s
  | sequence element ih =>
      rcases exists_of_throughout_sequence hx with ⟨items, rfl, hitems, helements⟩
      exact Sequence.plain_serialize
        (hformat.list (fun y hy place => ih (helements y hy) place) place)
        (hknown items hitems) fun _ => id

theorem ready {format : Format Nested π ω σ τ} (hformat : forall Known, format.Plain Known)
    (source : Source ω ι) (shape : Shape) {Held : Sequence Nested -> Prop} {x : Nested}
    (hx : shape.Throughout (fun s => s.Counted ∧ Held s) x) :
    (shape.codec format source).Ready Held x where
  same := shape.same_self (fun _ hs => hs.1) hx
  plain := fun Known hknown =>
    shape.plain_serialize (fun s hs => hknown s hs.2) (hformat Known) hx

end Shape

end ValueStore
