import ValueStore.Dictionary.MapFormat
import ValueStore.Proofs.Dictionary.Cursor
import ValueStore.Proofs.Dictionary.Removal
import ValueStore.Proofs.Sequence.Standing

/-!
# Iteration is exact

A cursor announces how many entries are to come by counting down from the size of the
dictionary, which adding and deleting keep up to date. The entries themselves it finds in the
tree. The two agree in every dictionary that can be reached, so what is announced is what comes,
to the caller of a cursor as well as to a format that is told how long a map will be. The keys,
the values and the pairs are read off the same entries, each in the place of its entry.
-/

namespace ValueStore

variable {α κ ν τ : Type}

namespace Action

def Collects (x : Action α (Sequence τ)) (elements : List τ) : Prop :=
  forall cells, exists s : Sequence τ,
    Cells.run x cells = (.ok s, cells.allocate.2) ∧ s.Stands elements

end Action

namespace Dictionary

theorem collects_collect (project : κ × ν -> τ) (m : Dictionary κ ν) :
    (m.collect project : Action α (Sequence τ)).Collects (m.toList.map project) := by
  intro cells
  refine ⟨.ofListAt cells.allocate.1 (m.cursor.drain.map project), rfl, ?_⟩
  rw [drain_cursor]
  exact ⟨Sequence.counted_ofListAt _ _, Sequence.toList_ofListAt _ _⟩

theorem toList_eq_flatMap_live (m : Dictionary κ ν) :
    m.toList = (m.index.toList.filter fun node => !node.2.deleted).flatMap fun node =>
      (node.2.key, node.2.value) :: node.2.overflow := by
  rw [toList, ← toList_filter_live]
  apply List.flatMap_congr
  intro node hnode
  have hlive := (List.mem_filter.mp hnode).2
  rw [Bool.not_eq_true'] at hlive
  exact Bucket.entries_of_live hlive

/-- Going through a dictionary yields its live entries, and no more or fewer than announced. -/
structure IteratesExactly (m : Dictionary κ ν) : Prop where
  /-- The entries, node by node, the overflow of each node behind its primary entry. -/
  order : m.toList = (m.index.toList.filter fun node => !node.2.deleted).flatMap fun node =>
    (node.2.key, node.2.value) :: node.2.overflow
  drawn : m.cursor.Yields m.toList
  /-- After any number of calls, what is still to come is what a cursor says is still to come. -/
  left : forall n, (m.cursor.draw n).2.drain = m.toList.drop n ∧
    (m.cursor.draw n).2.length = (m.toList.drop n).length ∧
      (m.cursor.draw n).2.sizeHint = ((m.toList.drop n).length, some (m.toList.drop n).length)
  keys : forall α : Type,
    (m.keySequence : Action α (Sequence κ)).Collects (m.toList.map Prod.fst)
  values : forall α : Type,
    (m.valueSequence : Action α (Sequence ν)).Collects (m.toList.map Prod.snd)
  entries : forall α : Type, (m.entrySequence : Action α (Sequence (κ × ν))).Collects m.toList
  /-- A format is told how many entries will follow, and exactly these do. -/
  serialized : forall {α σ ω : Type} (format : MapFormat α κ ν σ ω),
    m.serialize format = format.write (some m.toList.length) m.toList

theorem Kept.counted_cursor {policy : Policy} {m : Dictionary κ ν} (h : m.Kept policy) :
    m.cursor.Counted where
  walk := Walk.stacked_ofIndex m.index
  remaining := by
    rw [pending_cursor, ← h.counted]
    rfl

theorem Kept.iteratesExactly {policy : Policy} {m : Dictionary κ ν} (h : m.Kept policy) :
    m.IteratesExactly where
  order := m.toList_eq_flatMap_live
  drawn := m.yields_cursor
  left := by
    intro n
    rcases h.counted_cursor.draw n with ⟨hpending, hcounted⟩
    have hremaining := hcounted.remaining
    rw [hpending, pending_cursor] at hremaining
    refine ⟨?_, hremaining, ?_⟩
    · rw [Cursor.drain_eq_pending hcounted.walk, hpending, pending_cursor]
    · rw [Cursor.sizeHint, hremaining]
  keys := fun _ => m.collects_collect Prod.fst
  values := fun _ => m.collects_collect Prod.snd
  entries := by
    intro α
    have hcollects := m.collects_collect (α := α) id
    rwa [List.map_id] at hcollects
  serialized := by
    intro α σ ω format
    rw [serialize, drain_cursor, h.counted]

/--
Iteration is exact, under any keying and in any dictionary that can be reached. So it is in a
dictionary that requests lead to while the sequences read answer what they like.
-/
theorem iteratesExactly_of_reached (keying : Keying α κ) :
    (forall m : Dictionary κ ν, m.Reachable keying -> m.IteratesExactly) ∧
      forall policy requests,
        ((withPolicy policy : Dictionary κ ν).serveAll keying requests).Always fun _ outcome =>
          exists replies m, outcome = .ok (replies, m) ∧ m.IteratesExactly := by
  constructor
  · intro m hm
    exact hm.sound.kept.iteratesExactly
  · intro policy requests
    apply (always_kept_serveAll keying policy requests).mono
    intro _events outcome hserved
    rcases hserved with ⟨replies, m, houtcome, hkept⟩
    exact ⟨replies, m, houtcome, hkept.iteratesExactly⟩

/-- Two overflowing entries follow the first one, and the tombstone is passed over at the end. -/
theorem iteratesExactly_parity :
    oddsAndTombstone.Reachable Keying.parity ∧
      (oddsAndTombstone.cursor.draw 5).1 =
        [some (1, 10), some (3, 30), some (7, 70), none, none] ∧
      (oddsAndTombstone.cursor.draw 2).2.drain = [(7, 70)] ∧
      (oddsAndTombstone.cursor.draw 2).2.length = 1 ∧
      (oddsAndTombstone.cursor.draw 2).2.sizeHint = (1, some 1) ∧
      (oddsAndTombstone.keySequence : Action Nat (Sequence Nat)).Collects [1, 3, 7] ∧
      (oddsAndTombstone.valueSequence : Action Nat (Sequence Nat)).Collects [10, 30, 70] ∧
      forall format : MapFormat Nat Nat Nat (List (Nat × Nat)) Nat,
        oddsAndTombstone.serialize format = format.write (some 3) [(1, 10), (3, 30), (7, 70)] := by
  have hm := reachable_oddsAndTombstone
  have hexact := (iteratesExactly_of_reached Keying.parity).1 oddsAndTombstone hm
  rcases hexact.left 2 with ⟨hdrain, hlength, hhint⟩
  exact ⟨hm, hexact.drawn 5, hdrain, hlength, hhint, hexact.keys Nat, hexact.values Nat,
    hexact.serialized⟩

end Dictionary

end ValueStore
