import ValueStore.Dictionary.Cursor
import ValueStore.Proofs.Dictionary.Soundness
import ValueStore.Proofs.Tree.Walk

/-!
# What a cursor yields

A cursor still has to yield what is left of the bucket it stands in, and then the live
entries of the buckets its walk has not come to. Each call takes the first of these
entries, so a cursor through a dictionary yields its live entries, tombstones and the
ends of buckets notwithstanding.
-/

namespace ValueStore

variable {α κ ν : Type}

namespace Bucket

theorem liveCount_eq_zero_iff {b : Bucket κ ν} :
    b.liveCount = 0 ↔ b.deleted = true := by
  unfold liveCount
  cases b.deleted <;> simp

end Bucket

namespace Dictionary

namespace Cursor

def ahead (walk : Walk (Bucket κ ν)) : List (κ × ν) :=
  walk.pending.flatMap fun node => node.2.entries

def leftover (cursor : Cursor κ ν) : List (κ × ν) :=
  match cursor.current with
  | none => []
  | some b => b.overflow.drop cursor.position

def pending (cursor : Cursor κ ν) : List (κ × ν) :=
  cursor.leftover ++ ahead cursor.walk

/-- Calls of `next` answer these entries one by one, and nothing any more from then on. -/
def Yields (cursor : Cursor κ ν) (entries : List (κ × ν)) : Prop :=
  forall n, (cursor.draw n).1 =
    (entries.take n).map some ++ List.replicate (n - entries.length) none

theorem nextBucket?_cases {walk : Walk (Bucket κ ν)} (h : walk.Stacked) :
    (nextBucket? walk = none ∧ ahead walk = []) ∨
      exists b after, nextBucket? walk = some (b, after) ∧
        ahead walk = (b.key, b.value) :: (b.overflow ++ ahead after) ∧ after.Stacked := by
  fun_induction nextBucket? walk with
  | case1 walk hnone =>
      rcases h.next? with ⟨hpending, _hnext⟩ | ⟨node, after, hnext, _hpending, _hafter⟩
      · exact Or.inl ⟨rfl, by rw [ahead, hpending, List.flatMap_nil]⟩
      · cases hnone.symm.trans hnext
  | case2 walk hash b after hnext hdead ih =>
      rcases h.next? with ⟨_hpending, hnone⟩ | ⟨node, after', hnext', hpending, _hcount, hafter⟩
      · cases hnext.symm.trans hnone
      · cases hnext.symm.trans hnext'
        have hnil := Bucket.entries_of_deleted (Bucket.liveCount_eq_zero_iff.mp hdead)
        have hahead : ahead walk = ahead after := by
          rw [ahead, hpending, List.flatMap_cons, hnil, List.nil_append, ahead]
        rw [hahead]
        exact ih hafter
  | case3 walk hash b after hnext hlive =>
      rcases h.next? with ⟨_hpending, hnone⟩ | ⟨node, after', hnext', hpending, _hcount, hafter⟩
      · cases hnext.symm.trans hnone
      · cases hnext.symm.trans hnext'
        rw [Bucket.liveCount_eq_zero_iff, Bool.not_eq_true] at hlive
        refine Or.inr ⟨b, after, rfl, ?_, hafter⟩
        rw [ahead, hpending, List.flatMap_cons, Bucket.entries_of_live hlive, List.cons_append,
          ahead]

structure Takes (taken : Option (κ × ν) × Cursor κ ν) (entries : List (κ × ν)) : Prop where
  item : taken.1 = entries.head?
  pending : taken.2.pending = entries.tail
  walk : taken.2.walk.Stacked

theorem takes_nextPrimary {cursor : Cursor κ ν} (h : cursor.walk.Stacked) :
    Takes cursor.nextPrimary (ahead cursor.walk) := by
  unfold nextPrimary
  rcases nextBucket?_cases h with ⟨hnone, hahead⟩ | ⟨b, after, hsome, hahead, hafter⟩
  · rw [hnone, hahead]
    exact ⟨rfl, rfl, List.forall_mem_nil _⟩
  · rw [hsome, hahead]
    exact ⟨rfl, rfl, hafter⟩

theorem takes_next {cursor : Cursor κ ν} (h : cursor.walk.Stacked) :
    Takes cursor.next cursor.pending := by
  unfold next Cursor.pending leftover
  cases cursor.current with
  | none =>
      exact takes_nextPrimary h
  | some b =>
      dsimp only
      cases hentry : b.overflow[cursor.position]? with
      | none =>
          rw [List.drop_eq_nil_of_le (List.getElem?_eq_none_iff.mp hentry)]
          exact takes_nextPrimary h
      | some entry =>
          rcases List.getElem?_eq_some_iff.mp hentry with ⟨hposition, rfl⟩
          rw [List.drop_eq_getElem_cons hposition]
          exact ⟨rfl, rfl, h⟩

theorem yields_pending {cursor : Cursor κ ν} (h : cursor.walk.Stacked) :
    cursor.Yields cursor.pending := by
  intro n
  induction n generalizing cursor with
  | zero =>
      simp [draw]
  | succ n ih =>
      have htakes := takes_next h
      show cursor.next.1 :: (cursor.next.2.draw n).1 = _
      rw [htakes.item, ih htakes.walk, htakes.pending]
      cases cursor.pending <;> simp [List.replicate_succ]

theorem drain_eq_pending {cursor : Cursor κ ν} (h : cursor.walk.Stacked) :
    cursor.drain = cursor.pending := by
  fun_induction drain cursor with
  | case1 cursor after hnext =>
      have htakes := takes_next h
      rw [hnext] at htakes
      exact (List.head?_eq_none_iff.mp htakes.item.symm).symm
  | case2 cursor entry after hnext ih =>
      have htakes := takes_next h
      rw [hnext] at htakes
      rw [ih htakes.walk, htakes.pending]
      exact List.cons_head?_tail htakes.item.symm

/-! ## Counting down -/

theorem remaining_next (cursor : Cursor κ ν) :
    cursor.next.2.remaining = cursor.remaining - cursor.next.1.toList.length := by
  have hprimary : cursor.nextPrimary.2.remaining =
      cursor.remaining - cursor.nextPrimary.1.toList.length := by
    unfold nextPrimary
    cases nextBucket? cursor.walk with
    | none =>
        rfl
    | some found =>
        rfl
  unfold next
  cases cursor.current with
  | none =>
      exact hprimary
  | some b =>
      dsimp only
      cases b.overflow[cursor.position]? with
      | none =>
          exact hprimary
      | some entry =>
          rfl

structure Counted (cursor : Cursor κ ν) : Prop where
  walk : cursor.walk.Stacked
  remaining : cursor.remaining = cursor.pending.length

theorem Counted.next {cursor : Cursor κ ν} (h : cursor.Counted) :
    cursor.next.2.Counted := by
  have htakes := takes_next h.walk
  refine ⟨htakes.walk, ?_⟩
  rw [remaining_next, h.remaining, htakes.item, htakes.pending, List.length_tail]
  cases cursor.pending with
  | nil =>
      rfl
  | cons entry rest =>
      rfl

theorem Counted.draw {cursor : Cursor κ ν} (h : cursor.Counted) (n : Nat) :
    (cursor.draw n).2.pending = cursor.pending.drop n ∧ (cursor.draw n).2.Counted := by
  induction n generalizing cursor with
  | zero =>
      exact ⟨rfl, h⟩
  | succ n ih =>
      rcases ih h.next with ⟨hpending, hcounted⟩
      refine ⟨?_, hcounted⟩
      rw [← List.drop_tail, ← (takes_next h.walk).pending]
      exact hpending

end Cursor

theorem pending_cursor (m : Dictionary κ ν) :
    m.cursor.pending = m.toList := by
  show Cursor.ahead (Walk.ofIndex m.index) = m.toList
  rw [Cursor.ahead, Walk.pending_ofIndex, toList]

theorem drain_cursor (m : Dictionary κ ν) :
    m.cursor.drain = m.toList :=
  (Cursor.drain_eq_pending (Walk.stacked_ofIndex m.index)).trans m.pending_cursor

theorem yields_cursor (m : Dictionary κ ν) :
    m.cursor.Yields m.toList := by
  rw [← m.pending_cursor]
  exact Cursor.yields_pending (Walk.stacked_ofIndex m.index)

end Dictionary

end ValueStore
