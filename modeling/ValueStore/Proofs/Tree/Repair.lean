import ValueStore.Proofs.Tree.RedBlack

/-!
# Repairs on the way up

An insertion puts a red node at the end of a way down, and this node may come to hang below a
red one. On the way up each node is handed to `balance`. A red node is left as it is, even with a
red child; a black node that finds such a pair of red nodes below it has the pair taken apart and
turns red, which may make a pair again with the node above. So what an insertion into a calm
subtree leaves behind is one pair at most, at the root, and only if the root was red before.
-/

namespace ValueStore

namespace Tree

variable {β ε : Type}

/-! ## Pairs of red nodes -/

def redPairsAtRoot : Tree β -> Nat
  | node .red l _ _ r => l.isRed.toNat + r.isRed.toNat
  | _ => 0

/-- The number of red nodes that hang below a red node. -/
def redPairs : Tree β -> Nat
  | leaf => 0
  | node color l k v r => (node color l k v r).redPairsAtRoot + (l.redPairs + r.redPairs)

theorem redPairs_black (l : Tree β) (k : Int64) (v : β) (r : Tree β) :
    (node .black l k v r).redPairs = l.redPairs + r.redPairs :=
  Nat.zero_add _

theorem redPairsAtRoot_node_eq_zero_iff {color : Color} {l r : Tree β} {k : Int64} {v : β} :
    (node color l k v r).redPairsAtRoot = 0 ↔
      (color = .red -> l.isRed = false ∧ r.isRed = false) := by
  cases color with
  | red =>
      simp [redPairsAtRoot]
  | black =>
      simp [redPairsAtRoot]

theorem redPairs_eq_zero_iff {t : Tree β} :
    t.redPairs = 0 ↔ t.NoRedRed := by
  induction t with
  | leaf =>
      simp [redPairs, NoRedRed]
  | node color l k v r ihl ihr =>
      simp only [redPairs, NoRedRed, Nat.add_eq_zero_iff, redPairsAtRoot_node_eq_zero_iff, ihl, ihr]

theorem NoRedRedBelow.redPairs_eq {t : Tree β} (h : t.NoRedRedBelow) :
    t.redPairs = t.redPairsAtRoot := by
  cases t with
  | leaf =>
      rfl
  | node color l k v r =>
      rw [redPairs, redPairs_eq_zero_iff.mpr h.1, redPairs_eq_zero_iff.mpr h.2]
      rfl

/-- There is at most one pair of red nodes, and the root is the upper one of it. -/
structure OnePairAtMost (t : Tree β) : Prop where
  below : t.NoRedRedBelow
  one : t.redPairsAtRoot ≤ 1

theorem NoRedRed.onePairAtMost {t : Tree β} (h : t.NoRedRed) :
    t.OnePairAtMost where
  below := h.below
  one := by
    rw [← h.below.redPairs_eq, redPairs_eq_zero_iff.mpr h]
    exact Nat.zero_le 1

theorem isRed_insert_of_isRed {t : Tree β} (hroot : t.isRed = true) (handler : Handler β ε)
    (key : Int64) (value : β) :
    (t.insert handler key value).1.isRed = true := by
  cases t with
  | leaf =>
      cases hroot
  | node color l k v r =>
      cases color with
      | black =>
          cases hroot
      | red =>
          rw [insert_node]
          split
          · rw [balance_red]
            rfl
          · split
            · rw [balance_red]
              rfl
            · rfl

theorem NoRedRed.insert_onePairAtMost {t : Tree β} (h : t.NoRedRed) (handler : Handler β ε)
    (key : Int64) (value : β) :
    (t.insert handler key value).1.OnePairAtMost := by
  rcases h.insert handler key value with ⟨hbelow, hcalm⟩
  cases hroot : t.isRed with
  | false =>
      exact (hcalm hroot).onePairAtMost
  | true =>
      refine ⟨hbelow, ?_⟩
      cases t with
      | leaf =>
          cases hroot
      | node color l k v r =>
          cases color with
          | black =>
              cases hroot
          | red =>
              rcases h.1 rfl with ⟨hl, hr⟩
              rw [insert_node]
              split
              · rw [balance_red, redPairsAtRoot, hr]
                exact Bool.toNat_le _
              · split
                · rw [balance_red, redPairsAtRoot, hl, Bool.toNat_false, Nat.zero_add]
                  exact Bool.toNat_le _
                · rw [redPairsAtRoot, hl, hr]
                  exact Nat.zero_le 1

/-! ## What a rotation does -/

/--
A black node had one pair of red nodes, the upper one of which was a child of it. It has become a
red node with two black children and without such pairs, with the same entries in the same order
and as many black nodes on every way down.
-/
structure Mended (l : Tree β) (k : Int64) (v : β) (r after : Tree β) : Prop where
  one : (node .black l k v r).redPairs = 1
  below : l.redPairsAtRoot = 1 ∨ r.redPairsAtRoot = 1
  shape : exists a xk xv b yk yv c zk zv d,
    after = node .red (node .black a xk xv b) yk yv (node .black c zk zv d)
  calm : after.redPairs = 0
  inorder : after.inorder = (node .black l k v r).inorder
  black : exists height, (node .black l k v r).BlackHeight height ∧ after.BlackHeight height

theorem exists_eq_of_balance_ne {color : Color} {l r : Tree β} {k : Int64} {v : β}
    (hne : balance color l k v r ≠ node color l k v r) :
    color = .black ∧ exists a xk xv b yk yv c zk zv d,
      balance color l k v r =
        node .red (node .black a xk xv b) yk yv (node .black c zk zv d) := by
  unfold balance at hne ⊢
  split at hne
  · exact ⟨rfl, _, _, _, _, _, _, _, _, _, _, rfl⟩
  · exact ⟨rfl, _, _, _, _, _, _, _, _, _, _, rfl⟩
  · exact ⟨rfl, _, _, _, _, _, _, _, _, _, _, rfl⟩
  · exact ⟨rfl, _, _, _, _, _, _, _, _, _, _, rfl⟩
  · exact absurd rfl hne

theorem mended_balance {color : Color} {l r : Tree β} {k : Int64} {v : β} {height : Nat}
    (hsides : l.OnePairAtMost ∧ r.NoRedRed ∨ l.NoRedRed ∧ r.OnePairAtMost)
    (hblack : (node color l k v r).BlackHeight height)
    (hne : balance color l k v r ≠ node color l k v r) :
    color = .black ∧ Mended l k v r (balance color l k v r) := by
  rcases exists_eq_of_balance_ne hne with ⟨rfl, hshape⟩
  -- without any pair nothing would be rotated
  have hpair : ¬(l.NoRedRed ∧ r.NoRedRed) :=
    fun hcalm => hne (balance_of_noRedRed hcalm.1 hcalm.2)
  have hpairs : (l.redPairs = l.redPairsAtRoot ∧ l.redPairsAtRoot ≤ 1 ∧ r.redPairs = 0) ∨
      (l.redPairs = 0 ∧ r.redPairs = r.redPairsAtRoot ∧ r.redPairsAtRoot ≤ 1) := by
    rcases hsides with ⟨hl, hr⟩ | ⟨hl, hr⟩
    · exact Or.inl ⟨hl.below.redPairs_eq, hl.one, redPairs_eq_zero_iff.mpr hr⟩
    · exact Or.inr ⟨redPairs_eq_zero_iff.mpr hl, hr.below.redPairs_eq, hr.one⟩
  have hcalm : (balance .black l k v r).NoRedRed := by
    rcases hsides with ⟨hl, hr⟩ | ⟨hl, hr⟩
    · exact noRedRed_balance hl.below hr.below (Or.inr hr)
    · exact noRedRed_balance hl.below hr.below (Or.inl hl)
  rw [← redPairs_eq_zero_iff, ← redPairs_eq_zero_iff] at hpair
  refine ⟨rfl, ?_, ?_, hshape, redPairs_eq_zero_iff.mpr hcalm, inorder_balance _ l k v r,
    height, hblack, blackHeight_balance.mpr hblack⟩
  · rw [redPairs_black]
    omega
  · omega

/-! ## The nodes handed to `balance` -/

/-- Inserts as `insert` does, and tells which nodes are handed to `balance`, in this order. -/
def insertNoting (handler : Handler β ε) (key : Int64) (value : β) :
    Tree β -> (Tree β × Bool) × List (Tree β)
  | leaf => ((node .red leaf key value leaf, true), [])
  | node color l k v r =>
      if key < k then
        let ((l', added), handed) := l.insertNoting handler key value
        ((balance color l' k v r, added), handed ++ [node color l' k v r])
      else if k < key then
        let ((r', added), handed) := r.insertNoting handler key value
        ((balance color l k v r', added), handed ++ [node color l k v r'])
      else
        ((node color l k (handler.merge v value) r, false), [])

theorem insertNoting_fst (handler : Handler β ε) (key : Int64) (value : β) (t : Tree β) :
    (t.insertNoting handler key value).1 = t.insert handler key value := by
  induction t with
  | leaf =>
      rfl
  | node color l k v r ihl ihr =>
      unfold insertNoting insert
      rw [← ihl, ← ihr]
      split
      · rfl
      · split <;> rfl

theorem insertNoting_snd_node (handler : Handler β ε) (key : Int64) (value : β) (color : Color)
    (l : Tree β) (k : Int64) (v : β) (r : Tree β) :
    ((node color l k v r).insertNoting handler key value).2 =
      if key < k then
        (l.insertNoting handler key value).2 ++ [node color (l.insert handler key value).1 k v r]
      else if k < key then
        (r.insertNoting handler key value).2 ++ [node color l k v (r.insert handler key value).1]
      else [] := by
  rw [insertNoting, ← insertNoting_fst, ← insertNoting_fst]
  split
  · rfl
  · split <;> rfl

/-- One side of a node handed to `balance` comes from an insertion, the other is as it was. -/
theorem NoRedRed.sides_of_handed {t : Tree β} (hcalm : t.NoRedRed) {height : Nat}
    (hblack : t.BlackHeight height) {handler : Handler β ε} {key : Int64} {value : β}
    {color : Color} {l r : Tree β} {k : Int64} {v : β}
    (hhanded : node color l k v r ∈ (t.insertNoting handler key value).2) :
    (l.OnePairAtMost ∧ r.NoRedRed ∨ l.NoRedRed ∧ r.OnePairAtMost) ∧
      exists below, (node color l k v r).BlackHeight below := by
  induction t generalizing height with
  | leaf =>
      cases hhanded
  | node color' l' k' v' r' ihl ihr =>
      rcases hcalm with ⟨_hcolor, hl, hr⟩
      rcases blackHeight_node.mp hblack with ⟨below, hlBlack, hrBlack, hheight⟩
      rw [insertNoting_snd_node] at hhanded
      split at hhanded
      · rcases List.mem_append.mp hhanded with hearlier | hlast
        · exact ihl hl hlBlack hearlier
        · cases List.mem_singleton.mp hlast
          exact ⟨Or.inl ⟨hl.insert_onePairAtMost handler key value, hr⟩, height,
            blackHeight_node.mpr ⟨below, hlBlack.insert handler key value, hrBlack, hheight⟩⟩
      · split at hhanded
        · rcases List.mem_append.mp hhanded with hearlier | hlast
          · exact ihr hr hrBlack hearlier
          · cases List.mem_singleton.mp hlast
            exact ⟨Or.inr ⟨hl, hr.insert_onePairAtMost handler key value⟩, height,
              blackHeight_node.mpr ⟨below, hlBlack, hrBlack.insert handler key value, hheight⟩⟩
        · cases hhanded

/-! ## Inserting into a subtree -/

theorem mem_keys_insert (handler : Handler β ε) (key : Int64) (value : β) (t : Tree β)
    (k : Int64) :
    k ∈ (t.insert handler key value).1.toList.map Prod.fst ↔
      k = key ∨ k ∈ t.toList.map Prod.fst := by
  have hbefore := (t.toList_perm_inorder.map Prod.fst).mem_iff (a := k)
  have hafter := ((t.insert handler key value).1.toList_perm_inorder.map Prod.fst).mem_iff (a := k)
  rw [hbefore, hafter, inorder_insert, inorder_eq_split t key]
  unfold entryAt
  cases t.get? key with
  | none =>
      simp [or_left_comm]
  | some old =>
      simp [or_left_comm]

/--
Inserting into an ordered subtree without red nodes in a row, of some black height, keeps the order
and that height, and the keys are the old ones and the new one, which is counted if it was not
there. There is one pair of red nodes at most. The root is the upper one of it and was red before.
Of the nodes that are handed to `balance` on the way those that are rotated are black, have one
pair below one of their children, and are mended.
-/
theorem insert_repairs_all_but_root {t : Tree β} {height : Nat} (hordered : t.Ordered)
    (hcalm : t.NoRedRed) (hblack : t.BlackHeight height) (handler : Handler β ε) (key : Int64)
    (value : β) :
    exists after added handed,
      t.insert handler key value = (after, added) ∧
        t.insertNoting handler key value = ((after, added), handed) ∧
        after.Ordered ∧ after.BlackHeight height ∧
        (forall k, k ∈ after.toList.map Prod.fst ↔ k = key ∨ k ∈ t.toList.map Prod.fst) ∧
        after.count = (if added then t.count + 1 else t.count) ∧
        after.redPairs = after.redPairsAtRoot ∧ after.redPairs ≤ 1 ∧
        (after.redPairs ≠ 0 -> t.isRed = true ∧ after.isRed = true) ∧
        forall color l k v r, node color l k v r ∈ handed ->
          balance color l k v r ≠ node color l k v r ->
            color = .black ∧ Mended l k v r (balance color l k v r) := by
  have hone := hcalm.insert_onePairAtMost handler key value
  have hpairs := hone.below.redPairs_eq
  refine ⟨_, _, (t.insertNoting handler key value).2, rfl, ?_, hordered.insert handler key value,
    hblack.insert handler key value, mem_keys_insert handler key value t, ?_, hpairs,
    hpairs ▸ hone.one, ?_, ?_⟩
  · exact Prod.ext (insertNoting_fst handler key value t) rfl
  · rw [count_insert, insert_added]
  · intro hsome
    have hroot : t.isRed = true := by
      by_contra hroot
      have hcalmAfter := (hcalm.insert handler key value).2 (Bool.eq_false_iff.mpr hroot)
      exact hsome (redPairs_eq_zero_iff.mpr hcalmAfter)
    exact ⟨hroot, isRed_insert_of_isRed hroot handler key value⟩
  · intro color l k v r hhanded hne
    rcases hcalm.sides_of_handed hblack hhanded with ⟨hsides, below, hbelow⟩
    exact mended_balance hsides hbelow hne

def redOverBlack : Tree Unit :=
  node .red (node .black (node .red leaf 3 () leaf) 5 () leaf) 10 () (node .black leaf 15 () leaf)

/-- A new least key: the black node above it is rotated, which leaves the red root a red child. -/
theorem insert_repairs_all_but_root_redOverBlack :
    redOverBlack.Ordered ∧ redOverBlack.NoRedRed ∧ redOverBlack.BlackHeight 1 ∧
      exists after handed,
        redOverBlack.insertNoting (Handler.replace Unit) 2 () = ((after, true), handed) ∧
          after.redPairs = 1 ∧ after.redPairsAtRoot = 1 ∧ after.count = 5 ∧
          node .black (node .red (node .red leaf 2 () leaf) 3 () leaf) 5 () leaf ∈ handed ∧
          Mended (node .red (node .red leaf 2 () leaf) 3 () leaf) 5 () leaf
            (node .red (node .black leaf 2 () leaf) 3 () (node .black leaf 5 () leaf)) := by
  have hchecked : redOverBlack.checkedHeight? none none = some 1 := by
    rfl
  rcases checkedHeight?_eq_some_iff.mp hchecked with ⟨_hwithin, hordered, hcalm, hblack⟩
  refine ⟨hordered, hcalm, hblack, ?_⟩
  rcases insert_repairs_all_but_root hordered hcalm hblack (Handler.replace Unit) 2 () with
    ⟨after, added, handed, hinsert, hnoting, _hordered, _hblack, _hkeys, hcount, hpairs, _hone,
      _hroot, hmended⟩
  cases hinsert
  cases hnoting
  have hhanded : node .black (node .red (node .red leaf 2 () leaf) 3 () leaf) 5 () leaf ∈
      (redOverBlack.insertNoting (Handler.replace Unit) 2 ()).2 :=
    List.mem_cons_of_mem _ List.mem_cons_self
  exact ⟨_, _, rfl, rfl, hpairs.symm, hcount, hhanded,
    (hmended _ _ _ _ _ hhanded (by simp [balance])).2⟩

end Tree

end ValueStore
