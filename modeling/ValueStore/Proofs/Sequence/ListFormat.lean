import ValueStore.Proofs.Asking
import ValueStore.Sequence.ListFormat

/-!
# Sequences in a format

A format is handed the elements of a sequence in order, and their true number if the
sequence counts its chains rightly. So what comes of it depends on the elements only,
and if the format itself does not mind what cells keep, neither does what comes of it.
-/

namespace ValueStore

variable {α σ ω : Type}

namespace ListFormat

structure Plain (format : ListFormat α σ ω) (Known : Sequence α -> Prop) (Given : α -> Prop) :
    Prop where
  start : forall declared, (format.start declared).Plain Known
  element : forall state x, Given x -> (format.element state x).Plain Known
  finish : forall state, (format.finish state).Plain Known

structure Still (format : ListFormat α σ ω) : Prop where
  start : forall declared, exists begun, format.start declared = Action.done begun
  element : forall state x, (format.element state x).Still
  finish : forall state, (format.finish state).Still

theorem Still.plain {format : ListFormat α σ ω} (h : format.Still)
    (Known : Sequence α -> Prop) (Given : α -> Prop) :
    format.Plain Known Given where
  start := by
    intro declared
    rcases h.start declared with ⟨begun, hbegun⟩
    rw [hbegun]
    exact Action.plain_done begun
  element := fun state x _hx => (h.element state x).plain
  finish := fun state => (h.finish state).plain

end ListFormat

namespace Sequence

theorem eval_serialize (format : ListFormat α σ ω) {s : Sequence α} (hcounted : s.Counted) :
    (s.serialize format).eval = (format.write (some s.toList.length) s.toList).eval := by
  rw [← length_eq_length_toList hcounted]
  exact Action.eval_bind_congr rfl fun _ _ => rfl

theorem plain_serialize {format : ListFormat α σ ω} {Known : Sequence α -> Prop}
    {Given : α -> Prop} (hformat : format.Plain Known Given) {s : Sequence α} (hs : Known s)
    (hgiven : forall x, x ∈ s.toList -> Given x) :
    (s.serialize format).Plain Known := by
  apply (hformat.start (some s.length)).bind
  intro begun _hbegun
  apply (Action.plain_elements hs).bind
  intro elements helements
  cases helements
  have hwritten := (Action.closed_plain Known).foldlM
    (fun state x hx => hformat.element state x (hgiven x hx)) begun
  exact hwritten.bind fun written _hwritten => hformat.finish written

end Sequence

end ValueStore
