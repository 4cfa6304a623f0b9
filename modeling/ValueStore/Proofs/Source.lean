import Mathlib.Data.ENat.Basic
import ValueStore.Proofs.Format
import ValueStore.Proofs.Sequence.Asking
import ValueStore.Source

/-!
# Reading back what was written

A grammar says what a format and a source have in common: what the text of a value is,
where in an input it stands, and how deep lists may be nested. What is supposed of the two
is that integers and strings are read back, and that of a list the items are supplied as
they were written, one after the other.

If the elements of sequences are then read back, so are the sequences, one level of nesting
deeper. How a sequence divides its elements between its chains is not written, so it is not
read back either; the elements are, in order.
-/

namespace ValueStore

/-- `σ` is what a format keeps of a list on the way, and `ι` what a source has left to read. -/
structure Grammar (π ω ι σ : Type) where
  /-- The places at which values are written. -/
  AtValue : π -> Prop
  /-- What is written for a value. -/
  Text : ω -> Prop
  /-- A text stands before the rest of an input that may be nested so deep. -/
  Stands : Nat -> ω -> ι -> ι -> Prop
  /-- So many texts are still to come in a list, behind these. -/
  Holds : Nat -> List ω -> σ -> Prop
  /-- How deep a whole text may be nested. -/
  limit : ENat

variable {α π ω ι σ τ : Type}

/-- What is supplied are these texts, and then the rest. -/
inductive Supply.Presents (Stands : ω -> ι -> ι -> Prop) : Supply ι -> List ω -> ι -> Prop where
  | finished (rest : ι) : Presents Stands (.finished rest) [] rest
  | item {text : ω} {texts : List ω} {start after rest : ι} {next : ι -> Supply ι} :
      Stands text start after -> Presents Stands (next after) texts rest ->
        Presents Stands (.item start next) (text :: texts) rest

/-- The source reads back the scalars and the lists that the format writes. -/
structure Grammar.SharedBy (grammar : Grammar π ω ι σ) (format : Format α π ω σ τ)
    (source : Source ω ι) : Prop where
  integer : forall place n, grammar.AtValue place ->
    exists text, (format.integer place n).eval = .ok text ∧ grammar.Text text ∧
      forall room input rest, grammar.Stands room text input rest ->
        source.integer input = .ok (n, rest)
  string : forall place s, grammar.AtValue place ->
    exists text, (format.string place s).eval = .ok text ∧ grammar.Text text ∧
      forall room input rest, grammar.Stands room text input rest ->
        source.string input = .ok (s, rest)
  start : forall place n, grammar.AtValue place ->
    exists begun, (format.startList place (some n)).eval = .ok begun ∧ grammar.Holds n [] begun
  element : forall n texts state, grammar.Holds (n + 1) texts state ->
    exists place add, grammar.AtValue place ∧
      (forall text, grammar.Text text -> grammar.Holds n (texts ++ [text]) (add text)) ∧
        forall write, (format.element state write).eval = (write place).eval.map add
  finish : forall texts state, grammar.Holds 0 texts state ->
    exists text, (format.finishList state).eval = .ok text ∧ grammar.Text text ∧
      forall room input rest, grammar.Stands (room + 1) text input rest ->
        (source.list input).Presents (grammar.Stands room) texts rest
  whole : forall (room : Nat) text, grammar.Text text -> room ≤ grammar.limit ->
    exists rest, grammar.Stands room text (source.opened text) rest ∧ source.closed rest = .ok ()

/-- How elements are written and read, and which of them are taken for the same. -/
structure Codec (α π ω ι : Type) where
  write : α -> π -> Action α ω
  read : ι -> Action α (α × ι)
  Same : α -> α -> Prop

structure Sequence.Matches (Same : α -> α -> Prop) (s t : Sequence α) : Prop where
  left : s.Counted
  right : t.Counted
  elements : List.Forall₂ Same s.toList t.toList

namespace Codec

structure Reads (codec : Codec α π ω ι) (grammar : Grammar π ω ι σ) (room : Nat) (x : α)
    (text : ω) : Prop where
  written : grammar.Text text
  read : forall input rest, grammar.Stands room text input rest -> forall cells,
    exists y after, Cells.run (codec.read input) cells = (.ok (y, rest), after) ∧ codec.Same x y

/-- What is the same has one text, from which the same is read. -/
def ReadsBack (codec : Codec α π ω ι) (grammar : Grammar π ω ι σ) (room : Nat) : Prop :=
  forall x y, codec.Same x y -> forall place, grammar.AtValue place ->
    exists text, (codec.write x place).eval = .ok text ∧ (codec.write y place).eval = .ok text ∧
      codec.Reads grammar room x text

structure Ready (codec : Codec α π ω ι) (Held : Sequence α -> Prop) (x : α) : Prop where
  same : codec.Same x x
  plain : forall Known, (forall s, Held s -> Known s) ->
    forall place, (codec.write x place).Plain Known

/--
Sequences of the same elements have one text, from which a sequence of the same elements is read.
It has a cell of its own.
-/
def SequencesReadBack (codec : Codec α π ω ι) (grammar : Grammar π ω ι σ)
    (format : Format α π ω σ τ) (source : Source ω ι) : Prop :=
  forall place, grammar.AtValue place -> forall s t : Sequence α, s.Matches codec.Same t ->
    exists text, (s.serialize (format.list place codec.write)).eval = .ok text ∧
      (t.serialize (format.list place codec.write)).eval = .ok text ∧
        forall cells, exists u after,
          Cells.run (source.read (Sequence.deserialize source codec.read) text) cells =
            (.ok u, after) ∧ s.Matches codec.Same u ∧ u.New cells after

end Codec

section

variable {codec : Codec α π ω ι} {grammar : Grammar π ω ι σ} {format : Format α π ω σ τ}
  {source : Source ω ι} {room : Nat}

theorem Codec.reads_of_scalar {β : Type} {scalar : ι -> Except Error (β × ι)} {f : β -> α}
    {b : β} {text : ω} (hcodec : forall input, codec.read input = do
      let (b, rest) ← Action.ofExcept (scalar input)
      return (f b, rest))
    (hsame : codec.Same (f b) (f b)) (htext : grammar.Text text)
    (hscalar : forall input rest, grammar.Stands room text input rest ->
      scalar input = .ok (b, rest)) :
    codec.Reads grammar room (f b) text where
  written := htext
  read := by
    intro input rest hstands cells
    refine ⟨f b, cells, ?_, hsame⟩
    rw [hcodec, hscalar input rest hstands]
    rfl

theorem Codec.ReadsBack.elements (h : codec.ReadsBack grammar room)
    (hshared : grammar.SharedBy format source) {xs ys : List α}
    (hsame : List.Forall₂ codec.Same xs ys) {texts : List ω} {state : σ}
    (hstate : grammar.Holds xs.length texts state) :
    let element := fun state x => format.element state (codec.write x)
    exists added after, (xs.foldlM element state).eval = .ok after ∧
      (ys.foldlM element state).eval = .ok after ∧ grammar.Holds 0 (texts ++ added) after ∧
        List.Forall₂ (codec.Reads grammar room) xs added := by
  intro element
  -- both elements have one text, so both lists leave the same state behind
  induction hsame generalizing texts state with
  | nil =>
      refine ⟨[], state, rfl, rfl, ?_, List.Forall₂.nil⟩
      rw [List.append_nil]
      exact hstate
  | @cons x y xs ys hxy _hrest ih =>
      rcases hshared.element _ texts state hstate with ⟨place, add, hplace, hadd, helement⟩
      rcases h x y hxy place hplace with ⟨text, hx, hy, hreads⟩
      have hnext : forall z, (codec.write z place).eval = .ok text ->
          (element state z).eval = .ok (add text) := by
        intro z hz
        rw [helement, hz]
        rfl
      rcases ih (hadd text hreads.written) with ⟨added, after, hxs, hys, hholds, hadded⟩
      refine ⟨text :: added, after, ?_, ?_, ?_, List.Forall₂.cons hreads hadded⟩
      · rw [List.foldlM_cons, Action.eval_bind_of_ok (hnext x hx), hxs]
      · rw [List.foldlM_cons, Action.eval_bind_of_ok (hnext y hy), hys]
      · rw [List.append_cons]
        exact hholds

theorem Supply.Presents.collect {supply : Supply ι} {texts : List ω} {rest : ι}
    (h : supply.Presents (grammar.Stands room) texts rest) {xs : List α}
    (hreads : List.Forall₂ (codec.Reads grammar room) xs texts) (before : Array α)
    (cells : Cells α) :
    exists items after,
      Cells.run (supply.collect codec.read before) cells = (.ok (items, rest), after) ∧
        exists ys, items.toList = before.toList ++ ys ∧ List.Forall₂ codec.Same xs ys := by
  -- what comes next is supplied only when it is known where the item before it ended
  induction h generalizing xs before cells with
  | finished rest =>
      cases hreads
      exact ⟨before, cells, rfl, [], (List.append_nil _).symm, List.Forall₂.nil⟩
  | @item text texts start behind rest next hstands _hnext ih =>
      cases hreads with
      | @cons x _ xs _ hx hxs =>
          rcases hx.read start behind hstands cells with ⟨y, between, hrun, hsame⟩
          rcases ih hxs (before.push y) between with ⟨items, after, hcollect, ys, hitems, hys⟩
          refine ⟨items, after, ?_, y :: ys, ?_, List.Forall₂.cons hsame hys⟩
          · rw [Supply.collect, Cells.run_bind, hrun]
            exact hcollect
          · rw [hitems, Array.toList_push, List.append_assoc, List.singleton_append]

/-- If elements are read back, so are sequences of them, one level of nesting deeper. -/
theorem Codec.ReadsBack.sequence (h : codec.ReadsBack grammar room)
    (hshared : grammar.SharedBy format source) {s t : Sequence α} (hst : s.Matches codec.Same t)
    {place : π} (hplace : grammar.AtValue place) :
    exists text, (s.serialize (format.list place codec.write)).eval = .ok text ∧
      (t.serialize (format.list place codec.write)).eval = .ok text ∧ grammar.Text text ∧
        forall input rest, grammar.Stands (room + 1) text input rest -> forall cells,
          exists u after, Cells.run (Sequence.deserialize source codec.read input) cells =
            (.ok (u, rest), after) ∧ s.Matches codec.Same u ∧ u.New cells after := by
  rcases hshared.start place s.toList.length hplace with ⟨begun, hbegun, hholds⟩
  rcases h.elements hshared hst.elements hholds with ⟨texts, state, hs, ht, hwritten, hreads⟩
  rcases hshared.finish texts state hwritten with ⟨text, hfinish, htext, hpresents⟩
  refine ⟨text, ?_, ?_, htext, ?_⟩
  · rw [Sequence.eval_serialize _ hst.left]
    exact (Action.eval_bind_of_ok hbegun _).trans
      ((Action.eval_bind_of_ok hs _).trans hfinish)
  · rw [Sequence.eval_serialize _ hst.right, ← hst.elements.length_eq]
    exact (Action.eval_bind_of_ok hbegun _).trans
      ((Action.eval_bind_of_ok ht _).trans hfinish)
  · intro input rest hstands cells
    rcases (hpresents room input rest hstands).collect hreads #[] cells with
      ⟨items, between, hcollect, ys, hitems, hsame⟩
    have hsize := Cells.size_le_run ((source.list input).collect codec.read #[]) cells
    rw [hcollect] at hsize
    refine ⟨Sequence.ofListAt between.chains.size items.toList, between.allocate.2, ?_, ?_, ?_⟩
    · rw [Sequence.deserialize, Cells.run_bind, hcollect]
      rfl
    · refine ⟨hst.left, Sequence.counted_ofListAt _ _, ?_⟩
      rw [Sequence.toList_ofListAt, hitems]
      exact hsame
    · exact (Sequence.new_allocate rfl).mono hsize

theorem Codec.ReadsBack.sequences (h : codec.ReadsBack grammar room)
    (hshared : grammar.SharedBy format source) (hroom : ((room + 1 : Nat) : ENat) ≤ grammar.limit) :
    codec.SequencesReadBack grammar format source := by
  intro place hplace s t hst
  rcases h.sequence hshared hst hplace with ⟨text, hs, ht, htext, hread⟩
  rcases hshared.whole (room + 1) text htext hroom with ⟨rest, hstands, hclosed⟩
  refine ⟨text, hs, ht, ?_⟩
  intro cells
  rcases hread _ rest hstands cells with ⟨u, after, hrun, hsame, hnew⟩
  refine ⟨u, after, ?_, hsame, hnew⟩
  rw [Source.read, Cells.run_bind, hrun]
  show Cells.run (Action.ofExcept (source.closed rest) >>= fun _ => return u) after = _
  rw [hclosed]
  rfl

end

end ValueStore
