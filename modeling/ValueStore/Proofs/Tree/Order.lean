import Mathlib.Data.List.Perm.Basic
import ValueStore.Tree.Basic

/-!
# The order of keys in a tree

The keys of a search tree, read from left to right, grow strictly. Rebalancing
leaves that reading alone, an insertion puts one entry into it, and an edit
replaces one entry by another with the same key.
-/

namespace ValueStore

namespace Tree

variable {β ε : Type}

def inorder : Tree β -> List (Int64 × β)
  | leaf => []
  | node _ l k v r => l.inorder ++ (k, v) :: r.inorder

def Ordered : Tree β -> Prop
  | leaf => True
  | node _ l k _ r =>
      (forall entry, entry ∈ l.toList -> entry.1 < k) ∧
        (forall entry, entry ∈ r.toList -> k < entry.1) ∧ l.Ordered ∧ r.Ordered

theorem toList_perm_inorder (t : Tree β) :
    t.toList.Perm t.inorder := by
  induction t with
  | leaf =>
      exact List.Perm.refl []
  | node color l k v r ihl ihr =>
      have happend : (r.toList ++ l.toList).Perm (l.inorder ++ r.inorder) :=
        List.perm_append_comm.trans (ihl.append ihr)
      exact (happend.cons (k, v)).trans List.perm_middle.symm

theorem mem_inorder_iff {t : Tree β} {entry : Int64 × β} :
    entry ∈ t.inorder ↔ entry ∈ t.toList :=
  t.toList_perm_inorder.mem_iff.symm

theorem length_toList (t : Tree β) :
    t.toList.length = t.count := by
  induction t with
  | leaf =>
      rfl
  | node color l k v r ihl ihr =>
      simp only [toList, count, List.length_cons, List.length_append, ihl, ihr]
      omega

theorem length_inorder (t : Tree β) :
    t.inorder.length = t.count := by
  rw [← t.toList_perm_inorder.length_eq, length_toList]

theorem ordered_iff_pairwise (t : Tree β) :
    t.Ordered ↔ t.inorder.Pairwise fun d e => d.1 < e.1 := by
  induction t with
  | leaf =>
      simp [Ordered, inorder]
  | node color l k v r ihl ihr =>
      simp only [Ordered, inorder, List.pairwise_append, List.pairwise_cons, ihl, ihr,
        List.mem_cons, mem_inorder_iff]
      constructor
      · intro hordered
        rcases hordered with ⟨hleft, hright, hl, hr⟩
        refine ⟨hl, ⟨hright, hr⟩, ?_⟩
        intro d hd e he
        rcases he with rfl | he
        · exact hleft d hd
        · exact Int64.lt_trans (hleft d hd) (hright e he)
      · intro hpairwise
        rcases hpairwise with ⟨hl, ⟨hright, hr⟩, hcross⟩
        exact ⟨fun d hd => hcross d hd (k, v) (Or.inl rfl), hright, hl, hr⟩

theorem eq_of_not_lt {a b : Int64} (hab : ¬a < b) (hba : ¬b < a) :
    a = b :=
  Int64.le_antisymm (Int64.not_lt.mp hba) (Int64.not_lt.mp hab)

/-! ## Looking up -/

theorem mem_toList_of_get? {t : Tree β} {key : Int64} {v : β}
    (hget : t.get? key = some v) :
    (key, v) ∈ t.toList := by
  induction t with
  | leaf =>
      cases hget
  | node color l k w r ihl ihr =>
      unfold get? at hget
      unfold toList
      split at hget
      · exact List.mem_cons_of_mem _ (List.mem_append_right _ (ihl hget))
      · split at hget
        · exact List.mem_cons_of_mem _ (List.mem_append_left _ (ihr hget))
        · rename_i hlt hgt
          cases hget
          rw [eq_of_not_lt hlt hgt]
          exact List.mem_cons_self

theorem get?_of_mem_toList {t : Tree β} {key : Int64} {v : β}
    (hordered : t.Ordered) (hmem : (key, v) ∈ t.toList) :
    t.get? key = some v := by
  induction t with
  | leaf =>
      cases hmem
  | node color l k w r ihl ihr =>
      rcases hordered with ⟨hleft, hright, hl, hr⟩
      unfold get?
      rcases List.mem_cons.mp hmem with hroot | hmem
      · cases hroot
        simp
      · rcases List.mem_append.mp hmem with hmem | hmem
        · have hlt := hright _ hmem
          rw [if_neg (Int64.lt_asymm hlt), if_pos hlt]
          exact ihr hr hmem
        · rw [if_pos (hleft _ hmem)]
          exact ihl hl hmem

theorem mem_toList_iff_get? {t : Tree β} (hordered : t.Ordered) {key : Int64} {v : β} :
    (key, v) ∈ t.toList ↔ t.get? key = some v :=
  ⟨get?_of_mem_toList hordered, mem_toList_of_get?⟩

/-! ## Rebalancing -/

theorem inorder_balance (color : Color) (l : Tree β) (k : Int64) (v : β) (r : Tree β) :
    (balance color l k v r).inorder = (node color l k v r).inorder := by
  unfold balance
  split <;> simp [inorder]

theorem inorder_blacken (t : Tree β) :
    t.blacken.inorder = t.inorder := by
  cases t <;> rfl

/-! ## Inserting and editing -/

def leftOf (key : Int64) : Tree β -> List (Int64 × β)
  | leaf => []
  | node _ l k v r =>
      if key < k then l.leftOf key
      else if k < key then l.inorder ++ (k, v) :: r.leftOf key
      else l.inorder

def rightOf (key : Int64) : Tree β -> List (Int64 × β)
  | leaf => []
  | node _ l k v r =>
      if key < k then l.rightOf key ++ (k, v) :: r.inorder
      else if k < key then r.rightOf key
      else r.inorder

def entryAt (t : Tree β) (key : Int64) : List (Int64 × β) :=
  (t.get? key).toList.map fun v => (key, v)

def inserted (handler : Handler β ε) (t : Tree β) (key : Int64) (value : β) : β :=
  match t.get? key with
  | none => value
  | some old => handler.merge old value

theorem insert_node (handler : Handler β ε) (key : Int64) (value : β) (color : Color)
    (l : Tree β) (k : Int64) (v : β) (r : Tree β) :
    ((node color l k v r).insert handler key value).1 =
      if key < k then balance color (l.insert handler key value).1 k v r
      else if k < key then balance color l k v (r.insert handler key value).1
      else node color l k (handler.merge v value) r := by
  rw [insert]
  split
  · rfl
  · split <;> rfl

theorem inorder_eq_split (t : Tree β) (key : Int64) :
    t.inorder = t.leftOf key ++ (t.entryAt key ++ t.rightOf key) := by
  induction t with
  | leaf =>
      rfl
  | node color l k v r ihl ihr =>
      unfold leftOf rightOf entryAt get?
      split
      · simp [inorder, ihl, entryAt]
      · split
        · simp [inorder, ihr, entryAt]
        · rename_i hlt hgt
          simp [inorder, eq_of_not_lt hlt hgt]

theorem lt_of_mem_leftOf {t : Tree β} (hordered : t.Ordered) {key : Int64} {entry : Int64 × β}
    (hmem : entry ∈ t.leftOf key) :
    entry.1 < key := by
  induction t with
  | leaf =>
      cases hmem
  | node color l k v r ihl ihr =>
      rcases hordered with ⟨hleft, hright, hl, hr⟩
      unfold leftOf at hmem
      split at hmem
      · exact ihl hl hmem
      · split at hmem
        · rename_i hgt
          rcases List.mem_append.mp hmem with hmem | hmem
          · exact Int64.lt_trans (hleft entry (mem_inorder_iff.mp hmem)) hgt
          · rcases List.mem_cons.mp hmem with rfl | hmem
            · exact hgt
            · exact ihr hr hmem
        · rename_i hlt hgt
          rw [eq_of_not_lt hlt hgt]
          exact hleft entry (mem_inorder_iff.mp hmem)

theorem lt_of_mem_rightOf {t : Tree β} (hordered : t.Ordered) {key : Int64} {entry : Int64 × β}
    (hmem : entry ∈ t.rightOf key) :
    key < entry.1 := by
  induction t with
  | leaf =>
      cases hmem
  | node color l k v r ihl ihr =>
      rcases hordered with ⟨hleft, hright, hl, hr⟩
      unfold rightOf at hmem
      split at hmem
      · rename_i hlt
        rcases List.mem_append.mp hmem with hmem | hmem
        · exact ihl hl hmem
        · rcases List.mem_cons.mp hmem with rfl | hmem
          · exact hlt
          · exact Int64.lt_trans hlt (hright entry (mem_inorder_iff.mp hmem))
      · split at hmem
        · exact ihr hr hmem
        · rename_i hlt hgt
          rw [eq_of_not_lt hlt hgt]
          exact hright entry (mem_inorder_iff.mp hmem)

theorem inorder_insert (handler : Handler β ε) (key : Int64) (value : β) (t : Tree β) :
    (t.insert handler key value).1.inorder =
      t.leftOf key ++ (key, t.inserted handler key value) :: t.rightOf key := by
  induction t with
  | leaf =>
      rfl
  | node color l k v r ihl ihr =>
      rw [insert_node]
      unfold leftOf rightOf inserted get?
      split
      · simp [inorder_balance, inorder, ihl, inserted]
      · split
        · simp [inorder_balance, inorder, ihr, inserted]
        · rename_i hlt hgt
          simp [inorder, eq_of_not_lt hlt hgt]

theorem insert_added (handler : Handler β ε) (key : Int64) (value : β) (t : Tree β) :
    (t.insert handler key value).2 = (t.get? key).isNone := by
  induction t with
  | leaf =>
      rfl
  | node color l k v r ihl ihr =>
      unfold insert get?
      split
      · exact ihl
      · split
        · exact ihr
        · rfl

theorem inorder_modify? {handler : Handler β ε} {key : Int64} {edit : ε} {t t' : Tree β}
    (hmodify : t.modify? handler key edit = some t') :
    exists old new,
      t.get? key = some old ∧ handler.edit old edit = some new ∧
        t'.inorder = t.leftOf key ++ (key, new) :: t.rightOf key := by
  induction t generalizing t' with
  | leaf =>
      cases hmodify
  | node color l k v r ihl ihr =>
      unfold modify? at hmodify
      unfold get? leftOf rightOf
      split at hmodify
      · rcases Option.map_eq_some_iff.mp hmodify with ⟨l', hl', rfl⟩
        rcases ihl hl' with ⟨old, new, hget, hedit, hinorder⟩
        rename_i hlt
        exact ⟨old, new, by simp [hlt, hget], hedit, by simp [inorder, hlt, hinorder]⟩
      · split at hmodify
        · rcases Option.map_eq_some_iff.mp hmodify with ⟨r', hr', rfl⟩
          rcases ihr hr' with ⟨old, new, hget, hedit, hinorder⟩
          rename_i hlt hgt
          exact ⟨old, new, by simp [hlt, hgt, hget], hedit, by simp [inorder, hlt, hgt, hinorder]⟩
        · rcases Option.map_eq_some_iff.mp hmodify with ⟨new, hedit, rfl⟩
          rename_i hlt hgt
          exact ⟨v, new, by simp [hlt, hgt], hedit,
            by simp [inorder, eq_of_not_lt hlt hgt]⟩

theorem modify?_isSome (handler : Handler β ε) (key : Int64) (edit : ε) (t : Tree β) :
    (t.modify? handler key edit).isSome =
      ((t.get? key).bind fun v => handler.edit v edit).isSome := by
  induction t with
  | leaf =>
      rfl
  | node color l k v r ihl ihr =>
      unfold modify? get?
      split
      · simpa using ihl
      · split
        · simpa using ihr
        · simp

theorem ordered_of_inorder_eq {t t' : Tree β} (hordered : t.Ordered) {key : Int64} {new : β}
    (hinorder : t'.inorder = t.leftOf key ++ (key, new) :: t.rightOf key) :
    t'.Ordered := by
  have hpairwise := (ordered_iff_pairwise t).mp hordered
  rw [inorder_eq_split t key, List.pairwise_append] at hpairwise
  rcases hpairwise with ⟨hleft, hrest, hcross⟩
  have hright := (List.pairwise_append.mp hrest).2.1
  rw [ordered_iff_pairwise, hinorder, List.pairwise_append, List.pairwise_cons]
  refine ⟨hleft, ⟨fun e he => lt_of_mem_rightOf hordered he, hright⟩, ?_⟩
  intro d hd e he
  rcases List.mem_cons.mp he with rfl | he
  · exact lt_of_mem_leftOf hordered hd
  · exact hcross d hd e (List.mem_append_right _ he)

theorem Ordered.blacken {t : Tree β} (hordered : t.Ordered) :
    t.blacken.Ordered := by
  rw [ordered_iff_pairwise, inorder_blacken, ← ordered_iff_pairwise]
  exact hordered

theorem Ordered.insert {t : Tree β} (hordered : t.Ordered) (handler : Handler β ε)
    (key : Int64) (value : β) :
    (t.insert handler key value).1.Ordered :=
  ordered_of_inorder_eq hordered (inorder_insert handler key value t)

theorem Ordered.modify? {t t' : Tree β} (hordered : t.Ordered) {handler : Handler β ε}
    {key : Int64} {edit : ε} (hmodify : t.modify? handler key edit = some t') :
    t'.Ordered := by
  rcases inorder_modify? hmodify with ⟨old, new, _hget, _hedit, hinorder⟩
  exact ordered_of_inorder_eq hordered hinorder

/-! ## Counting -/

theorem count_insert (handler : Handler β ε) (key : Int64) (value : β) (t : Tree β) :
    (t.insert handler key value).1.count =
      if (t.get? key).isNone then t.count + 1 else t.count := by
  rw [← length_inorder, ← length_inorder, inorder_insert, inorder_eq_split t key]
  unfold entryAt
  cases t.get? key with
  | none =>
      simp
      omega
  | some old =>
      simp

theorem count_modify? {handler : Handler β ε} {key : Int64} {edit : ε} {t t' : Tree β}
    (hmodify : t.modify? handler key edit = some t') :
    t'.count = t.count := by
  rcases inorder_modify? hmodify with ⟨old, new, hget, _hedit, hinorder⟩
  rw [← length_inorder, ← length_inorder, hinorder, inorder_eq_split t key]
  simp [entryAt, hget]

theorem count_blacken (t : Tree β) :
    t.blacken.count = t.count := by
  cases t <;> rfl

end Tree

end ValueStore
