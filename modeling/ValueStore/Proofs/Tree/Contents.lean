import ValueStore.Proofs.Tree.RedBlack

/-!
# What an index holds

An insertion and an edit exchange the entry of one key and leave all the others, so
what an index holds is known up to the order in which its tree lists it.
-/

namespace ValueStore

namespace Index

variable {β ε : Type}

def others (index : Index β) (key : Int64) : List (Int64 × β) :=
  index.root.leftOf key ++ index.root.rightOf key

theorem toList_perm_others (index : Index β) (key : Int64) :
    index.toList.Perm (index.root.entryAt key ++ index.others key) := by
  have hinorder : index.toList.Perm index.root.inorder := index.root.toList_perm_inorder
  rw [index.root.inorder_eq_split key] at hinorder
  exact hinorder.trans (List.perm_append_comm_assoc _ _ _)

theorem toList_perm_of_get? {index : Index β} {key : Int64} {v : β}
    (hget : index.get? key = some v) :
    index.toList.Perm ((key, v) :: index.others key) := by
  have hentry : index.root.entryAt key = [(key, v)] := by
    unfold get? at hget
    simp [Tree.entryAt, hget]
  simpa [hentry] using index.toList_perm_others key

theorem toList_perm_of_get?_eq_none {index : Index β} {key : Int64}
    (hget : index.get? key = none) :
    index.toList.Perm (index.others key) := by
  have hentry : index.root.entryAt key = [] := by
    unfold get? at hget
    simp [Tree.entryAt, hget]
  simpa [hentry] using index.toList_perm_others key

theorem mem_toList_iff_get? {index : Index β} (h : index.RedBlack) {key : Int64} {v : β} :
    (key, v) ∈ index.toList ↔ index.get? key = some v :=
  Tree.mem_toList_iff_get? h.ordered

theorem mem_toList_of_get? {index : Index β} {key : Int64} {v : β}
    (hget : index.get? key = some v) :
    (key, v) ∈ index.toList :=
  Tree.mem_toList_of_get? hget

theorem nodup_keys {index : Index β} (h : index.RedBlack) :
    (index.toList.map Prod.fst).Nodup := by
  have hinorder := (Tree.ordered_iff_pairwise index.root).mp h.ordered
  have hnodup : (index.root.inorder.map Prod.fst).Nodup := by
    rw [List.nodup_iff_pairwise_ne, List.pairwise_map]
    apply hinorder.imp
    intro d e hlt heq
    exact Int64.lt_irrefl (heq ▸ hlt)
  exact (index.root.toList_perm_inorder.map Prod.fst).nodup_iff.mpr hnodup

/-! ## Insertions -/

theorem toList_put (handler : Handler β ε) (index : Index β) (key : Int64) (value : β) :
    (index.put handler key value).toList.Perm
      ((key, index.root.inserted handler key value) :: index.others key) := by
  have hinorder : (index.put handler key value).toList.Perm
      (index.put handler key value).root.inorder :=
    Tree.toList_perm_inorder _
  have hroot : (index.put handler key value).root.inorder =
      index.root.leftOf key ++
        (key, index.root.inserted handler key value) :: index.root.rightOf key :=
    (Tree.inorder_blacken _).trans (Tree.inorder_insert handler key value index.root)
  rw [hroot] at hinorder
  exact hinorder.trans List.perm_middle

theorem toList_put_absent (handler : Handler β ε) {index : Index β} {key : Int64}
    (hget : index.get? key = none) (value : β) :
    (index.put handler key value).toList.Perm ((key, value) :: index.toList) := by
  have hinserted : index.root.inserted handler key value = value := by
    unfold get? at hget
    simp [Tree.inserted, hget]
  have hput := index.toList_put handler key value
  rw [hinserted] at hput
  exact hput.trans ((toList_perm_of_get?_eq_none hget).symm.cons _)

theorem toList_put_present (handler : Handler β ε) {index : Index β} {key : Int64} {old : β}
    (hget : index.get? key = some old) (value : β) :
    (index.put handler key value).toList.Perm
      ((key, handler.merge old value) :: index.others key) := by
  have hinserted : index.root.inserted handler key value = handler.merge old value := by
    unfold get? at hget
    simp [Tree.inserted, hget]
  exact hinserted ▸ index.toList_put handler key value

theorem RedBlack.putAll {index : Index β} (h : index.RedBlack) (handler : Handler β ε)
    (entries : List (Int64 × β)) :
    (index.putAll handler entries).RedBlack := by
  induction entries generalizing index with
  | nil =>
      exact h
  | cons entry rest ih =>
      exact ih (h.put handler entry.1 entry.2)

theorem toList_putAll (handler : Handler β ε) {index : Index β} (h : index.RedBlack)
    {entries : List (Int64 × β)} (hnodup : (entries.map Prod.fst).Nodup)
    (hnew : forall entry, entry ∈ entries -> index.get? entry.1 = none) :
    (index.putAll handler entries).toList.Perm (entries ++ index.toList) := by
  induction entries generalizing index with
  | nil =>
      exact List.Perm.refl _
  | cons entry rest ih =>
      rcases List.nodup_cons.mp hnodup with ⟨hfresh, hrest⟩
      have hput := toList_put_absent handler (hnew entry List.mem_cons_self) entry.2
      have hredBlack := h.put handler entry.1 entry.2
      have hnewRest : forall e, e ∈ rest ->
          (index.put handler entry.1 entry.2).get? e.1 = none := by
        intro e he
        rw [Option.eq_none_iff_forall_ne_some]
        intro v hv
        rcases List.mem_cons.mp (hput.mem_iff.mp (mem_toList_of_get? hv)) with heq | hold
        · have hkey : e.1 = entry.1 := (Prod.mk.inj heq).1
          exact hfresh (hkey ▸ List.mem_map_of_mem he)
        · have hnone := hnew e (List.mem_cons_of_mem _ he)
          rw [(mem_toList_iff_get? h).mp hold] at hnone
          cases hnone
      exact (ih hredBlack hrest hnewRest).trans
        ((hput.append_left rest).trans List.perm_middle)

/-! ## Edits -/

theorem toList_modify {handler : Handler β ε} {index after : Index β} {key : Int64}
    {edit : ε} (hmodify : index.modify handler key edit = (after, true)) :
    exists old new,
      index.get? key = some old ∧ handler.edit old edit = some new ∧
        after.toList.Perm ((key, new) :: index.others key) := by
  unfold modify at hmodify
  split at hmodify
  · rename_i root hroot
    cases hmodify
    rcases Tree.inorder_modify? hroot with ⟨old, new, hget, hedit, hinorder⟩
    refine ⟨old, new, hget, hedit, ?_⟩
    have hperm : root.toList.Perm root.inorder := root.toList_perm_inorder
    rw [hinorder] at hperm
    exact hperm.trans List.perm_middle
  · cases hmodify

theorem modify_of_edit {handler : Handler β ε} {index : Index β} {key : Int64} {edit : ε}
    {old new : β} (hget : index.get? key = some old) (hedit : handler.edit old edit = some new) :
    exists after, index.modify handler key edit = (after, true) := by
  have hsome := index.root.modify?_isSome handler key edit
  unfold get? at hget
  rw [hget, Option.bind_some, hedit] at hsome
  rcases Option.isSome_iff_exists.mp hsome with ⟨root, hroot⟩
  exact ⟨{ index with root := root }, by simp [modify, hroot]⟩

end Index

end ValueStore
