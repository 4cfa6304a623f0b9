import Mathlib.Data.Set.Card
import ValueStore.Proofs.Tree.Contents
import ValueStore.Proofs.Tree.Walk

/-!
# Indexes as tables

A table is a partial function from keys to payloads. Insertions and edits change it at
one key, in the way their handler says. An index after any run of changes looks up what
the table after the same changes has, lists exactly its entries, and counts them.
-/

namespace ValueStore

abbrev Table (β : Type) := Int64 -> Option β

namespace Table

variable {β ε : Type}

def empty : Table β :=
  fun _ => none

def merged (handler : Handler β ε) (table : Table β) (key : Int64) (value : β) : β :=
  match table key with
  | none => value
  | some old => handler.merge old value

def edited? (handler : Handler β ε) (table : Table β) (key : Int64) (edit : ε) : Option β :=
  (table key).bind fun old => handler.edit old edit

def put (handler : Handler β ε) (table : Table β) (key : Int64) (value : β) : Table β :=
  Function.update table key (some (table.merged handler key value))

def modify (handler : Handler β ε) (table : Table β) (key : Int64) (edit : ε) : Table β :=
  match table.edited? handler key edit with
  | none => table
  | some new => Function.update table key (some new)

def step (handler : Handler β ε) (table : Table β) : Index.Step β ε -> Table β
  | .put key value => table.put handler key value
  | .modify key edit => table.modify handler key edit

def run (handler : Handler β ε) (table : Table β) (steps : List (Index.Step β ε)) : Table β :=
  steps.foldl (step handler) table

end Table

namespace Tree

variable {β ε : Type}

/-! ## The order in which keys are listed -/

theorem keys_skeleton (t : Tree β) :
    t.skeleton.toList.map Prod.fst = t.toList.map Prod.fst := by
  induction t with
  | leaf =>
      rfl
  | node color l k v r ihl ihr =>
      simp [skeleton, toList, ihl, ihr]

theorem toList_blacken (t : Tree β) :
    t.blacken.toList = t.toList := by
  cases t <;> rfl

end Tree

namespace Index

variable {β ε : Type}

theorem keys_modify (handler : Handler β ε) (index : Index β) (key : Int64) (edit : ε) :
    (index.modify handler key edit).1.toList.map Prod.fst = index.toList.map Prod.fst := by
  unfold modify
  cases hmodify : index.root.modify? handler key edit with
  | none =>
      rfl
  | some root =>
      show root.toList.map Prod.fst = index.root.toList.map Prod.fst
      rw [← Tree.keys_skeleton, Tree.skeleton_modify? hmodify, Tree.keys_skeleton]

theorem RedBlack.keys_put_present {index : Index β} (h : index.RedBlack)
    (handler : Handler β ε) {key : Int64} (hpresent : index.contains key = true) (value : β) :
    (index.put handler key value).toList.map Prod.fst = index.toList.map Prod.fst := by
  rcases h.tree with ⟨height, htree⟩
  rcases Option.isSome_iff_exists.mp hpresent with ⟨old, hget⟩
  have hskeleton := Tree.skeleton_insert handler value htree.calm hget
  show (index.root.insert handler key value).1.blacken.toList.map Prod.fst =
    index.root.toList.map Prod.fst
  rw [Tree.toList_blacken, ← Tree.keys_skeleton, hskeleton, Tree.keys_skeleton]

/-! ## Looking up after a change -/

theorem mem_others_iff {index : Index β} {key sought : Int64} (hne : sought ≠ key) {v : β} :
    (sought, v) ∈ index.others key ↔ (sought, v) ∈ index.toList := by
  rw [(index.toList_perm_others key).mem_iff, List.mem_append]
  constructor
  · exact Or.inr
  · intro hmem
    apply hmem.resolve_left
    intro hentry
    rcases List.mem_map.mp hentry with ⟨w, _hw, heq⟩
    exact hne (Prod.mk.inj heq).1.symm

theorem get?_of_perm_others {index after : Index β} (h : index.RedBlack)
    (hafter : after.RedBlack) {key : Int64} {new : β}
    (hperm : after.toList.Perm ((key, new) :: index.others key)) :
    after.get? = Function.update index.get? key (some new) := by
  funext sought
  apply Option.ext
  intro v
  rw [← mem_toList_iff_get? hafter, hperm.mem_iff, List.mem_cons]
  by_cases hsought : sought = key
  · subst hsought
    rw [Function.update_self]
    constructor
    · intro hmem
      rcases hmem with heq | hmem
      · rw [(Prod.mk.inj heq).2]
      · rcases List.mem_append.mp hmem with hmem | hmem
        · exact (Int64.lt_irrefl (Tree.lt_of_mem_leftOf h.ordered hmem)).elim
        · exact (Int64.lt_irrefl (Tree.lt_of_mem_rightOf h.ordered hmem)).elim
    · intro heq
      exact Or.inl (Prod.ext rfl (Option.some.inj heq).symm)
  · rw [Function.update_of_ne hsought, mem_others_iff hsought, mem_toList_iff_get? h]
    constructor
    · intro hmem
      rcases hmem with heq | hmem
      · exact (hsought (Prod.mk.inj heq).1).elim
      · exact hmem
    · exact Or.inr

theorem RedBlack.get?_put {index : Index β} (h : index.RedBlack) (handler : Handler β ε)
    (key : Int64) (value : β) :
    (index.put handler key value).get? = Table.put handler index.get? key value :=
  get?_of_perm_others h (h.put handler key value) (index.toList_put handler key value)

theorem RedBlack.modify_cases {index : Index β} (h : index.RedBlack) (handler : Handler β ε)
    (key : Int64) (edit : ε) :
    (Table.edited? handler index.get? key edit = none ∧
        index.modify handler key edit = (index, false)) ∨
      exists new after, Table.edited? handler index.get? key edit = some new ∧
        index.modify handler key edit = (after, true) ∧
          after.get? = Function.update index.get? key (some new) := by
  cases hroot : index.root.modify? handler key edit with
  | none =>
      have hsome := index.root.modify?_isSome handler key edit
      rw [hroot] at hsome
      exact Or.inl ⟨Option.not_isSome_iff_eq_none.mp (Bool.eq_false_iff.mp hsome.symm),
        by rw [Index.modify, hroot]⟩
  | some root =>
      have hmodify : index.modify handler key edit = ({ index with root := root }, true) := by
        rw [Index.modify, hroot]
      rcases toList_modify hmodify with ⟨old, new, hget, hedit, hperm⟩
      have hafter := h.modify handler key edit
      rw [hmodify] at hafter
      refine Or.inr ⟨new, _, ?_, hmodify, get?_of_perm_others h hafter hperm⟩
      rw [Table.edited?, hget]
      exact hedit

theorem RedBlack.modify_eq_true_iff {index : Index β} (h : index.RedBlack)
    (handler : Handler β ε) (key : Int64) (edit : ε) :
    (index.modify handler key edit).2 = true ↔
      exists v w, index.get? key = some v ∧ handler.edit v edit = some w := by
  rcases h.modify_cases handler key edit with
    ⟨hedited, hmodify⟩ | ⟨new, after, hedited, hmodify, _hget⟩
  · rw [hmodify]
    constructor
    · intro hmade
      cases hmade
    · intro hfound
      rcases hfound with ⟨v, w, hget, hedit⟩
      rw [Table.edited?, hget, Option.bind_some, hedit] at hedited
      cases hedited
  · rw [hmodify]
    rcases Option.bind_eq_some_iff.mp hedited with ⟨v, hget, hedit⟩
    exact ⟨fun _ => ⟨v, new, hget, hedit⟩, fun _ => rfl⟩

theorem RedBlack.modify_of_eq_false {index : Index β} (h : index.RedBlack)
    {handler : Handler β ε} {key : Int64} {edit : ε}
    (hrefused : (index.modify handler key edit).2 = false) :
    (index.modify handler key edit).1 = index := by
  rcases h.modify_cases handler key edit with
    ⟨_hedited, hmodify⟩ | ⟨new, after, _hedited, hmodify, _hget⟩
  · rw [hmodify]
  · rw [hmodify] at hrefused
    cases hrefused

theorem RedBlack.get?_step {index : Index β} (h : index.RedBlack) (handler : Handler β ε)
    (step : Step β ε) :
    (index.step handler step).get? = Table.step handler index.get? step := by
  cases step with
  | put key value =>
      exact h.get?_put handler key value
  | modify key edit =>
      show (index.modify handler key edit).1.get? = Table.modify handler index.get? key edit
      unfold Table.modify
      rcases h.modify_cases handler key edit with
        ⟨hedited, hmodify⟩ | ⟨new, after, hedited, hmodify, hget⟩
      · rw [hmodify, hedited]
      · rw [hmodify, hedited]
        exact hget

theorem RedBlack.get?_run {index : Index β} (h : index.RedBlack) (handler : Handler β ε)
    (steps : List (Step β ε)) :
    (index.run handler steps).get? = Table.run handler index.get? steps := by
  induction steps generalizing index with
  | nil =>
      rfl
  | cons step rest ih =>
      show ((index.step handler step).run handler rest).get? =
        Table.run handler (Table.step handler index.get? step) rest
      rw [ih (h.step handler step), h.get?_step handler step]

theorem RedBlack.encard_domain {index : Index β} (h : index.RedBlack) :
    {key | index.contains key = true}.encard = index.size := by
  have hdomain : {key | index.contains key = true} =
      ((index.toList.map Prod.fst).toFinset : Set Int64) := by
    ext key
    rw [Set.mem_ofPred_eq, List.coe_toFinset, Set.mem_ofPred_eq, List.mem_map]
    constructor
    · intro hcontains
      rcases Option.isSome_iff_exists.mp hcontains with ⟨v, hget⟩
      exact ⟨(key, v), mem_toList_of_get? hget, rfl⟩
    · intro hlisted
      rcases hlisted with ⟨entry, hentry, rfl⟩
      exact Option.isSome_iff_exists.mpr ⟨entry.2, (mem_toList_iff_get? h).mp hentry⟩
  rw [hdomain, Set.encard_coe_eq_coe_finsetCard, List.toFinset_card_of_nodup (nodup_keys h),
    List.length_map, h.counted, ← Tree.length_toList]
  rfl

/--
After every run of changes an index is the table after the same changes: it looks up what the table
has, counts its keys, and lists, walks through and shows a visitor its entries, each key once. An
edit is made exactly if its key has a payload to which it applies, and changes nothing otherwise.
Neither an edit nor an insertion at a key that is there changes the order in which keys are listed.
-/
theorem run_empty_like_table (handler : Handler β ε) (steps : List (Step β ε)) :
    let index := empty.run handler steps
    let table := Table.empty.run handler steps
    (forall key, index.get? key = table key ∧ index.contains key = (table key).isSome) ∧
      {key | (table key).isSome = true}.encard = index.size ∧
      (forall key v, (key, v) ∈ index.toList ↔ table key = some v) ∧
      (index.toList.map Prod.fst).Nodup ∧
      (forall n, ((Walk.ofIndex index).draw n).1 =
        (index.toList.take n).map some ++ List.replicate (n - index.toList.length) none) ∧
      index.visitAll (fun seen key value => seen ++ [(key, value)]) [] = index.toList ∧
      (forall {σ : Type} (visitor : σ -> Int64 -> β -> σ) (state : σ),
        index.visitAll visitor state =
          index.toList.foldl (fun state entry => visitor state entry.1 entry.2) state) ∧
      (forall key edit,
        ((index.modify handler key edit).2 = true ↔
            exists v w, table key = some v ∧ handler.edit v edit = some w) ∧
          ((index.modify handler key edit).2 = false ->
            (index.modify handler key edit).1 = index) ∧
          (index.modify handler key edit).1.toList.map Prod.fst = index.toList.map Prod.fst) ∧
      (forall key value, (table key).isSome = true ->
        (index.put handler key value).toList.map Prod.fst = index.toList.map Prod.fst) := by
  intro index table
  have h : index.RedBlack := redBlack_empty.run handler steps
  have htable : index.get? = table := redBlack_empty.get?_run handler steps
  have hcontains : forall key, index.contains key = (table key).isSome :=
    fun key => congrArg Option.isSome (congrFun htable key)
  rcases Walk.counted_ofIndex h with ⟨hpending, hcounted⟩
  refine ⟨fun key => ⟨congrFun htable key, hcontains key⟩, ?_, ?_, nodup_keys h, ?_,
    index.visitAll_note, index.visitAll_eq_foldl, ?_, ?_⟩
  · simp only [← hcontains]
    exact h.encard_domain
  · intro key v
    rw [mem_toList_iff_get? h, htable]
  · intro n
    rw [(hcounted.draw n).1, hpending]
  · intro key edit
    rw [← htable]
    exact ⟨h.modify_eq_true_iff handler key edit, h.modify_of_eq_false,
      keys_modify handler index key edit⟩
  · intro key value hpresent
    exact h.keys_put_present handler ((hcontains key).trans hpresent) value

end Index

end ValueStore
