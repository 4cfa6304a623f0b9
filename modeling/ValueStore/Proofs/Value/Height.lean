import Mathlib.Order.Lattice
import ValueStore.Proofs.Tree.Order
import ValueStore.Value.Basic

/-!
# Heights of values

The elements of a list and the live keys and values of a map are less high than the
list or the map. Stale entries count too, so a map may be higher than its live
entries make it.
-/

namespace ValueStore

namespace Value

theorem height_pos (v : Value) : 0 < v.height := by
  cases v <;> simp [height]

theorem height_le_listHeight {items : List Value} {v : Value} (hmem : v ∈ items) :
    v.height ≤ listHeight items := by
  induction items with
  | nil =>
      cases hmem
  | cons w rest ih =>
      rw [listHeight]
      rcases List.mem_cons.mp hmem with rfl | hmem
      · exact Nat.le_max_left _ _
      · exact (ih hmem).trans (Nat.le_max_right _ _)

theorem height_lt_of_mem_list {items : Sequence Value} {v : Value} (hmem : v ∈ items.toList) :
    v.height < (list items).height := by
  rcases items with ⟨front, frontLength, back, backLength, cell⟩
  rw [height, sequenceHeight, Nat.lt_succ_iff]
  rcases List.mem_append.mp hmem with hfront | hback
  · exact (height_le_listHeight hfront).trans (Nat.le_max_left _ _)
  · exact (height_le_listHeight (List.mem_reverse.mp hback)).trans (Nat.le_max_right _ _)

theorem entryHeight_le_entriesHeight {entries : List (Value × Value)} {entry : Value × Value}
    (hmem : entry ∈ entries) :
    entryHeight entry ≤ entriesHeight entries := by
  induction entries with
  | nil =>
      cases hmem
  | cons e rest ih =>
      rw [entriesHeight]
      rcases List.mem_cons.mp hmem with rfl | hmem
      · exact Nat.le_max_left _ _
      · exact (ih hmem).trans (Nat.le_max_right _ _)

theorem entryHeight_le_bucketHeight {b : Bucket Value Value} {entry : Value × Value}
    (hmem : entry ∈ b.entries) :
    entryHeight entry ≤ bucketHeight b := by
  rcases b with ⟨key, value, overflow, deleted⟩
  rw [bucketHeight]
  cases deleted with
  | true =>
      cases hmem
  | false =>
      rcases List.mem_cons.mp hmem with rfl | hmem
      · exact Nat.le_max_left _ _
      · exact (entryHeight_le_entriesHeight hmem).trans (Nat.le_max_right _ _)

theorem bucketHeight_le_treeHeight {t : Tree (Bucket Value Value)}
    {node : Int64 × Bucket Value Value} (hmem : node ∈ t.toList) :
    bucketHeight node.2 ≤ treeHeight t := by
  induction t with
  | leaf =>
      cases hmem
  | node color l k b r ihl ihr =>
      rw [treeHeight]
      rcases List.mem_cons.mp hmem with rfl | hmem
      · exact Nat.le_max_left _ _
      · rcases List.mem_append.mp hmem with hright | hleft
        · exact (ihr hright).trans ((Nat.le_max_right _ _).trans (Nat.le_max_right _ _))
        · exact (ihl hleft).trans ((Nat.le_max_left _ _).trans (Nat.le_max_right _ _))

theorem entryHeight_lt_of_mem_map {m : Dictionary Value Value} {entry : Value × Value}
    (hmem : entry ∈ m.toList) :
    entryHeight entry < (map m).height := by
  rcases List.mem_flatMap.mp hmem with ⟨node, hnode, hentry⟩
  rcases m with ⟨⟨root, count⟩, size, deletions, policy⟩
  rw [height, dictionaryHeight, indexHeight, Nat.lt_succ_iff]
  exact (entryHeight_le_bucketHeight hentry).trans (bucketHeight_le_treeHeight hnode)

theorem key_height_lt_of_mem_map {m : Dictionary Value Value} {entry : Value × Value}
    (hmem : entry ∈ m.toList) :
    entry.1.height < (map m).height := by
  have hlt := entryHeight_lt_of_mem_map hmem
  rw [entryHeight] at hlt
  exact (Nat.le_max_left _ _).trans_lt hlt

theorem value_height_lt_of_mem_map {m : Dictionary Value Value} {entry : Value × Value}
    (hmem : entry ∈ m.toList) :
    entry.2.height < (map m).height := by
  have hlt := entryHeight_lt_of_mem_map hmem
  rw [entryHeight] at hlt
  exact (Nat.le_max_right _ _).trans_lt hlt

end Value

end ValueStore
