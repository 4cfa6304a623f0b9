import ValueStore.Proofs.Tree.Color

/-!
# Red-black search trees

The rules an index keeps through every run of insertions and edits, and the check
of them in one pass.
-/

namespace ValueStore

namespace Tree

variable {β ε : Type}

/-! ## The check -/

theorem within_iff {lower upper : Option Int64} {x : Int64} :
    within lower upper x = true ↔
      (forall b, lower = some b -> b < x) ∧ (forall b, upper = some b -> x < b) := by
  cases lower <;> cases upper <;> simp [within]

theorem within_left {lower upper : Option Int64} {k x : Int64}
    (hk : within lower upper k = true) :
    within lower (some k) x = true ↔ within lower upper x = true ∧ x < k := by
  have hk := within_iff.mp hk
  rw [within_iff, within_iff]
  constructor
  · intro h
    rcases h with ⟨hlower, hupper⟩
    have hx := hupper k rfl
    exact ⟨⟨hlower, fun b hb => Int64.lt_trans hx (hk.2 b hb)⟩, hx⟩
  · intro h
    rcases h with ⟨⟨hlower, _hupper⟩, hx⟩
    refine ⟨hlower, ?_⟩
    intro b hb
    cases hb
    exact hx

theorem within_right {lower upper : Option Int64} {k x : Int64}
    (hk : within lower upper k = true) :
    within (some k) upper x = true ↔ within lower upper x = true ∧ k < x := by
  have hk := within_iff.mp hk
  rw [within_iff, within_iff]
  constructor
  · intro h
    rcases h with ⟨hlower, hupper⟩
    have hx := hlower k rfl
    exact ⟨⟨fun b hb => Int64.lt_trans (hk.1 b hb) hx, hupper⟩, hx⟩
  · intro h
    rcases h with ⟨⟨_hlower, hupper⟩, hx⟩
    refine ⟨?_, hupper⟩
    intro b hb
    cases hb
    exact hx

theorem checkedHeight?_node {color : Color} {l r : Tree β} {k : Int64} {v : β}
    {lower upper : Option Int64} {height : Nat} :
    (node color l k v r).checkedHeight? lower upper = some height ↔
      within lower upper k = true ∧
        (color = .red -> l.isRed = false ∧ r.isRed = false) ∧
          exists h, l.checkedHeight? lower (some k) = some h ∧
            r.checkedHeight? (some k) upper = some h ∧
              height = if color = .black then h + 1 else h := by
  rw [checkedHeight?]
  cases hwithin : within lower upper k with
  | false =>
      simp
  | true =>
      cases hl : l.checkedHeight? lower (some k) with
      | none =>
          simp
      | some lh =>
          cases hr : r.checkedHeight? (some k) upper with
          | none =>
              simp
          | some rh =>
              cases color <;> cases l.isRed <;> cases r.isRed <;> grind

theorem checkedHeight?_eq_some_iff {t : Tree β} {lower upper : Option Int64} {height : Nat} :
    t.checkedHeight? lower upper = some height ↔
      (forall entry, entry ∈ t.toList -> within lower upper entry.1 = true) ∧
        t.Ordered ∧ t.NoRedRed ∧ t.BlackHeight height := by
  induction t generalizing lower upper height with
  | leaf =>
      simp [checkedHeight?, toList, Ordered, NoRedRed, eq_comm (a := 0)]
  | node color l k v r ihl ihr =>
      simp only [checkedHeight?_node, ihl, ihr, blackHeight_node, Ordered, NoRedRed]
      constructor
      · intro hchecked
        rcases hchecked with ⟨hk, hcolor, h, ⟨hlWithin, hl, hlCalm, hlHeight⟩,
          ⟨hrWithin, hr, hrCalm, hrHeight⟩, hheight⟩
        refine ⟨?_, ⟨?_, ?_, hl, hr⟩, ⟨hcolor, hlCalm, hrCalm⟩,
          h, hlHeight, hrHeight, hheight⟩
        · intro entry hmem
          rcases List.mem_cons.mp hmem with rfl | hmem
          · exact hk
          · rcases List.mem_append.mp hmem with hmem | hmem
            · exact ((within_right hk).mp (hrWithin entry hmem)).1
            · exact ((within_left hk).mp (hlWithin entry hmem)).1
        · exact fun entry hmem => ((within_left hk).mp (hlWithin entry hmem)).2
        · exact fun entry hmem => ((within_right hk).mp (hrWithin entry hmem)).2
      · intro hrules
        rcases hrules with ⟨hwithin, ⟨hleft, hright, hl, hr⟩, ⟨hcolor, hlCalm, hrCalm⟩,
          h, hlHeight, hrHeight, hheight⟩
        have hk : within lower upper k = true := hwithin (k, v) List.mem_cons_self
        refine ⟨hk, hcolor, h, ⟨?_, hl, hlCalm, hlHeight⟩, ⟨?_, hr, hrCalm, hrHeight⟩, hheight⟩
        · intro entry hmem
          have hentry := hwithin entry (List.mem_cons_of_mem _ (List.mem_append_right _ hmem))
          exact (within_left hk).mpr ⟨hentry, hleft entry hmem⟩
        · intro entry hmem
          have hentry := hwithin entry (List.mem_cons_of_mem _ (List.mem_append_left _ hmem))
          exact (within_right hk).mpr ⟨hentry, hright entry hmem⟩

/-- A tree that keeps all rules, with the given number of black nodes on every way down. -/
structure RedBlack (t : Tree β) (height : Nat) : Prop where
  root : t.isRed = false
  calm : t.NoRedRed
  black : t.BlackHeight height
  ordered : t.Ordered

/-- The check answers a height exactly for the trees that keep all rules. -/
theorem blackHeight?_iff_redBlack {t : Tree β} {height : Nat} :
    t.blackHeight? = some height ↔ t.RedBlack height := by
  unfold blackHeight?
  cases hroot : t.isRed with
  | true =>
      simp only [if_true, reduceCtorEq, false_iff]
      intro h
      rw [h.root] at hroot
      cases hroot
  | false =>
      simp only [Bool.false_eq_true, if_false, checkedHeight?_eq_some_iff]
      constructor
      · intro hrules
        rcases hrules with ⟨_hwithin, hordered, hcalm, hblack⟩
        exact ⟨hroot, hcalm, hblack, hordered⟩
      · intro h
        exact ⟨fun _ _ => rfl, h.ordered, h.calm, h.black⟩

/-! ## Insertions and edits -/

theorem redBlack_leaf :
    (leaf : Tree β).RedBlack 0 :=
  ⟨rfl, trivial, blackHeight_leaf.mpr rfl, trivial⟩

theorem RedBlack.insert {t : Tree β} {height : Nat} (h : t.RedBlack height)
    (handler : Handler β ε) (key : Int64) (value : β) :
    (t.insert handler key value).1.blacken.RedBlack
      (if (t.insert handler key value).1.isRed then height + 1 else height) where
  root := isRed_blacken _
  calm := (h.calm.insert handler key value).1.blacken
  black := (h.black.insert handler key value).blacken
  ordered := (h.ordered.insert handler key value).blacken

theorem RedBlack.modify? {t t' : Tree β} {height : Nat} (h : t.RedBlack height)
    {handler : Handler β ε} {key : Int64} {edit : ε}
    (hmodify : t.modify? handler key edit = some t') :
    t'.RedBlack height := by
  have hskeleton := skeleton_modify? hmodify
  constructor
  · rw [← isRed_skeleton, hskeleton, isRed_skeleton, h.root]
  · rw [← noRedRed_skeleton, hskeleton, noRedRed_skeleton]
    exact h.calm
  · rw [← blackHeight_skeleton, hskeleton, blackHeight_skeleton]
    exact h.black
  · exact h.ordered.modify? hmodify

theorem blacken_of_isRed {t : Tree β} (hroot : t.isRed = false) :
    t.blacken = t := by
  cases t with
  | leaf =>
      rfl
  | node color l k v r =>
      cases color with
      | red =>
          cases hroot
      | black =>
          rfl

end Tree

namespace Index

variable {β ε : Type}

/-- The rules of an index: a red-black search tree whose nodes are counted. -/
structure RedBlack (index : Index β) : Prop where
  tree : exists height, index.root.RedBlack height
  counted : index.size = index.root.count

inductive Step (β ε : Type) where
  | put (key : Int64) (value : β)
  | modify (key : Int64) (edit : ε)

def step (handler : Handler β ε) (index : Index β) : Step β ε -> Index β
  | .put key value => index.put handler key value
  | .modify key edit => (index.modify handler key edit).1

def run (handler : Handler β ε) (index : Index β) (steps : List (Step β ε)) : Index β :=
  steps.foldl (step handler) index

theorem redBlack_empty :
    (empty : Index β).RedBlack :=
  ⟨⟨0, Tree.redBlack_leaf⟩, rfl⟩

theorem RedBlack.ordered {index : Index β} (h : index.RedBlack) :
    index.root.Ordered := by
  rcases h.tree with ⟨height, htree⟩
  exact htree.ordered

theorem RedBlack.put {index : Index β} (h : index.RedBlack) (handler : Handler β ε)
    (key : Int64) (value : β) :
    (index.put handler key value).RedBlack := by
  rcases h.tree with ⟨height, htree⟩
  refine ⟨⟨_, htree.insert handler key value⟩, ?_⟩
  simp only [Index.put, Tree.count_blacken, Tree.count_insert, Tree.insert_added, h.counted]

theorem RedBlack.modify {index : Index β} (h : index.RedBlack) (handler : Handler β ε)
    (key : Int64) (edit : ε) :
    (index.modify handler key edit).1.RedBlack := by
  rcases h.tree with ⟨height, htree⟩
  unfold Index.modify
  cases hmodify : index.root.modify? handler key edit with
  | none =>
      exact h
  | some root =>
      refine ⟨⟨height, htree.modify? hmodify⟩, ?_⟩
      rw [Tree.count_modify? hmodify]
      exact h.counted

theorem RedBlack.step {index : Index β} (h : index.RedBlack) (handler : Handler β ε)
    (step : Step β ε) :
    (index.step handler step).RedBlack := by
  cases step with
  | put key value =>
      exact h.put handler key value
  | modify key edit =>
      exact h.modify handler key edit

theorem RedBlack.run {index : Index β} (h : index.RedBlack) (handler : Handler β ε)
    (steps : List (Step β ε)) :
    (index.run handler steps).RedBlack := by
  induction steps generalizing index with
  | nil =>
      exact h
  | cons step rest ih =>
      exact ih (h.step handler step)

theorem blackHeight?_modify (handler : Handler β ε) (index : Index β) (key : Int64)
    (edit : ε) :
    (index.modify handler key edit).1.blackHeight? = index.blackHeight? := by
  unfold modify
  cases hmodify : index.root.modify? handler key edit with
  | none =>
      rfl
  | some root =>
      simp only [blackHeight?]
      rw [← Tree.blackHeight?_skeleton, Tree.skeleton_modify? hmodify,
        Tree.blackHeight?_skeleton]

theorem RedBlack.blackHeight?_put_present {index : Index β} (h : index.RedBlack)
    (handler : Handler β ε) {key : Int64} (hpresent : index.contains key = true) (value : β) :
    (index.put handler key value).blackHeight? = index.blackHeight? := by
  rcases h.tree with ⟨height, htree⟩
  rcases Option.isSome_iff_exists.mp hpresent with ⟨old, hget⟩
  have hskeleton := Tree.skeleton_insert handler value htree.calm hget
  have hroot : (index.root.insert handler key value).1.isRed = false := by
    rw [← Tree.isRed_skeleton, hskeleton, Tree.isRed_skeleton, htree.root]
  simp only [blackHeight?, Index.put]
  rw [Tree.blacken_of_isRed hroot, ← Tree.blackHeight?_skeleton, hskeleton,
    Tree.blackHeight?_skeleton]

theorem RedBlack.blackHeight?_put {index : Index β} (h : index.RedBlack)
    (handler : Handler β ε) (key : Int64) (value : β) :
    (index.put handler key value).blackHeight? = index.blackHeight? ∨
      (index.put handler key value).blackHeight? = index.blackHeight?.map (· + 1) := by
  rcases h.tree with ⟨height, htree⟩
  have hbefore : index.blackHeight? = some height :=
    Tree.blackHeight?_iff_redBlack.mpr htree
  have hafter : (index.put handler key value).blackHeight? =
      some (if (index.root.insert handler key value).1.isRed then height + 1 else height) :=
    Tree.blackHeight?_iff_redBlack.mpr (htree.insert handler key value)
  rw [hbefore, hafter]
  cases (index.root.insert handler key value).1.isRed with
  | true =>
      exact Or.inr rfl
  | false =>
      exact Or.inl rfl

/--
Every run of insertions and edits ends with a red-black search tree and its true size. The check
finds its black height, which only a key that was absent can raise, and then by one.
-/
theorem run_empty_redBlack (handler : Handler β ε) (steps : List (Step β ε)) :
    let index := empty.run handler steps
    (exists height, index.root.isRed = false ∧ index.root.NoRedRed ∧
        index.root.BlackHeight height ∧ index.root.Ordered ∧
        index.blackHeight? = some height) ∧
      index.size = index.root.count ∧
      (forall key edit, (index.modify handler key edit).1.blackHeight? = index.blackHeight?) ∧
      (forall key value, index.contains key = true ->
        (index.put handler key value).blackHeight? = index.blackHeight?) ∧
      (forall key value, index.contains key = false ->
        (index.put handler key value).blackHeight? = index.blackHeight? ∨
          (index.put handler key value).blackHeight? = index.blackHeight?.map (· + 1)) := by
  intro index
  have h : index.RedBlack := redBlack_empty.run handler steps
  rcases h.tree with ⟨height, htree⟩
  refine ⟨⟨height, htree.root, htree.calm, htree.black, htree.ordered,
      Tree.blackHeight?_iff_redBlack.mpr htree⟩, h.counted, ?_, ?_, ?_⟩
  · exact fun key edit => blackHeight?_modify handler index key edit
  · exact fun key value hpresent => h.blackHeight?_put_present handler hpresent value
  · exact fun key value _habsent => h.blackHeight?_put handler key value

end Index

end ValueStore
