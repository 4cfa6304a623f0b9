import ValueStore.Proofs.Dictionary.Reachable
import ValueStore.Proofs.Value.Within

/-!
# Values that can be built

A list is built from values in two chains of which it keeps the lengths, and a map by
adding, deleting and rebuilding. Of the entries of a map only the live ones have to be
built; what a tombstone still holds does not matter.
-/

namespace ValueStore

namespace Value

inductive Built : Value -> Prop where
  | integer (n : Int64) : Built (integer n)
  | float (x : Binary64) : Built (float x)
  | string (s : String) : Built (string s)
  | boolean (b : Bool) : Built (boolean b)
  | list {items : Sequence Value} :
      items.Counted -> (forall v, v ∈ items.toList -> Built v) -> Built (list items)
  | map {m : ValueMap} :
      m.Reachable keying -> (forall entry, entry ∈ m.toList -> Built entry.1) ->
      (forall entry, entry ∈ m.toList -> Built entry.2) -> Built (map m)
  | function (handle : Handle) : Built (function handle)
  | channel (handle : Handle) : Built (channel handle)
  | foreign (handle : Handle) : Built (foreign handle)

theorem Built.counted {v : Value} (hv : v.Built) :
    ListsKnown Sequence.Counted v := by
  induction hv with
  | list hcounted _helements ih =>
      exact listsKnown_list hcounted ih
  | map _hreachable _hkeys _hvalues ihkeys ihvalues =>
      exact listsKnown_map ihkeys ihvalues
  | _ =>
      intro items hitems
      cases hitems

/-! ## Building lists -/

/-- The list of two chains under a given cell, the back chain stored in reverse. -/
def ofChains (cell : CellId) (front back : List Value) : Value :=
  list { front := front, frontLength := front.length,
         back := back, backLength := back.length, cell := cell }

theorem built_ofChains (cell : CellId) {front back : List Value}
    (hfront : forall v, v ∈ front -> v.Built) (hback : forall v, v ∈ back -> v.Built) :
    (ofChains cell front back).Built := by
  apply Built.list ⟨rfl, rfl⟩
  intro v hv
  rcases List.mem_append.mp hv with hv | hv
  · exact hfront v hv
  · exact hback v (List.mem_reverse.mp hv)

theorem listsKnown_ofChains {Known : Sequence Value -> Prop} {cell : CellId}
    {front back : List Value} (hitems : Known ⟨front, front.length, back, back.length, cell⟩)
    (hfront : forall v, v ∈ front -> ListsKnown Known v)
    (hback : forall v, v ∈ back -> ListsKnown Known v) :
    ListsKnown Known (ofChains cell front back) := by
  apply listsKnown_list hitems
  intro v hv
  rcases List.mem_append.mp hv with hv | hv
  · exact hfront v hv
  · exact hback v (List.mem_reverse.mp hv)

def OfEither (v w : Value) (items : Sequence Value) : Prop :=
  list items = v ∨ list items = w

theorem faithful_empty_ofEither {xs ys : Sequence Value} (hcell : xs.cell ≠ ys.cell) :
    (Cells.empty : Cells Value).Faithful (OfEither (list xs) (list ys)) := by
  apply Cells.faithful_empty
  intro s t hs ht hshared
  rcases hs with hs | hs
  · cases hs
    rcases ht with ht | ht
    · exact (list.inj ht).symm
    · cases ht
      exact absurd hshared hcell
  · cases hs
    rcases ht with ht | ht
    · cases ht
      exact absurd hshared.symm hcell
    · exact (list.inj ht).symm

/-! ## Building maps -/

theorem built_map_of_subset {m after : ValueMap} (hm : (map m).Built)
    (hafter : after.Reachable keying)
    (hsubset : forall entry, entry ∈ after.toList -> entry ∈ m.toList) :
    (map after).Built := by
  cases hm with
  | map _hreachable hkeys hvalues =>
      apply Built.map hafter
      · exact fun entry hentry => hkeys entry (hsubset entry hentry)
      · exact fun entry hentry => hvalues entry (hsubset entry hentry)

theorem Built.reachable {m : ValueMap} (hm : (Value.map m).Built) :
    m.Reachable keying := by
  cases hm with
  | map hreachable _hkeys _hvalues =>
      exact hreachable

theorem built_withPolicy (policy : Policy) :
    (map (Dictionary.withPolicy policy)).Built :=
  Built.map (Dictionary.Reachable.withPolicy policy) (List.forall_mem_nil _)
    (List.forall_mem_nil _)

theorem built_put {m larger : ValueMap} {key value : Value} (hm : (map m).Built)
    (hkey : key.Built) (hvalue : value.Built)
    (hput : (m.put keying key value).eval = .ok larger) :
    (map larger).Built := by
  have hperm := Dictionary.toList_put hput
  have hreachable := hm.reachable.put hput
  cases hm with
  | map _hreachable hkeys hvalues =>
      apply Built.map hreachable
      · intro entry hentry
        rcases List.mem_cons.mp (hperm.mem_iff.mp hentry) with rfl | hentry
        · exact hkey
        · exact hkeys entry hentry
      · intro entry hentry
        rcases List.mem_cons.mp (hperm.mem_iff.mp hentry) with rfl | hentry
        · exact hvalue
        · exact hvalues entry hentry

theorem built_erase {m smaller : ValueMap} {key : Value} {found : Bool} (hm : (map m).Built)
    (herase : (m.erase keying key).eval = .ok (found, smaller)) :
    (map smaller).Built := by
  rcases hm.reachable.sound.toList_erase herase with
    ⟨_hfound, rfl⟩ | ⟨_hfound, removed, _hsame, hperm⟩
  · exact hm
  · apply built_map_of_subset hm (hm.reachable.erase herase)
    intro entry hentry
    exact hperm.mem_iff.mpr (List.mem_cons_of_mem _ hentry)

theorem built_delete {m smaller : ValueMap} {key : Value} (hm : (map m).Built)
    (hdelete : (m.delete keying key).eval = .ok smaller) :
    (map smaller).Built :=
  built_erase hm (Dictionary.erase_of_delete_eq_ok hdelete)

theorem built_putAll {m larger : ValueMap} {entries : List (Value × Value)}
    (hm : (map m).Built)
    (hentries : forall entry, entry ∈ entries -> entry.1.Built ∧ entry.2.Built)
    (hputAll : (m.putAll keying entries).eval = .ok larger) :
    (map larger).Built := by
  induction entries generalizing m with
  | nil =>
      cases hputAll
      exact hm
  | cons entry rest ih =>
      rcases List.forall_mem_cons.mp hentries with ⟨hentry, hrest⟩
      rcases Action.exists_of_eval_bind_eq_ok hputAll with ⟨next, hput, hnext⟩
      exact ih (built_put hm hentry.1 hentry.2 hput) hrest hnext

theorem built_compact {m : ValueMap} (hm : (map m).Built) :
    (map m.compact).Built := by
  apply built_map_of_subset hm hm.reachable.compact
  intro entry hentry
  exact (Dictionary.toList_compact hm.reachable.sound.index).mem_iff.mp hentry

end Value

end ValueStore
