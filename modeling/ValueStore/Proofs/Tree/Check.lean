import ValueStore.Proofs.Tree.RedBlack

/-!
# What the check of a tree finds out

The check goes down a tree once. It hands bounds for the keys downwards and counts of black
nodes upwards, and looks no further than from a node to its children. The rules are about
all the nodes below a node and all the ways from the root: the check answers a height
exactly for the trees that keep them, however malformed a tree may be.
-/

namespace ValueStore

namespace Tree

variable {β : Type}

/-- The parts of a tree are the tree itself and the parts of its children. -/
inductive Part (part : Tree β) : Tree β -> Prop where
  | self : Part part part
  | left {color : Color} {l r : Tree β} {k : Int64} {v : β} :
      Part part l -> Part part (node color l k v r)
  | right {color : Color} {l r : Tree β} {k : Int64} {v : β} :
      Part part r -> Part part (node color l k v r)

def HasKey (t : Tree β) (key : Int64) : Prop :=
  exists color l v r, (node color l key v r).Part t

theorem forall_part_node {P : Color -> Tree β -> Int64 -> β -> Tree β -> Prop} {color : Color}
    {l r : Tree β} {k : Int64} {v : β} :
    (forall color' l' k' v' r', (node color' l' k' v' r').Part (node color l k v r) ->
        P color' l' k' v' r') ↔
      P color l k v r ∧
        (forall color' l' k' v' r', (node color' l' k' v' r').Part l -> P color' l' k' v' r') ∧
        (forall color' l' k' v' r', (node color' l' k' v' r').Part r -> P color' l' k' v' r') := by
  constructor
  · intro hall
    refine ⟨hall color l k v r Part.self, ?_, ?_⟩
    · exact fun color' l' k' v' r' hpart => hall color' l' k' v' r' (Part.left hpart)
    · exact fun color' l' k' v' r' hpart => hall color' l' k' v' r' (Part.right hpart)
  · intro hrules color' l' k' v' r' hpart
    rcases hrules with ⟨hroot, hleft, hright⟩
    cases hpart with
    | self =>
        exact hroot
    | left hpart =>
        exact hleft color' l' k' v' r' hpart
    | right hpart =>
        exact hright color' l' k' v' r' hpart

theorem not_part_leaf {color : Color} {l r : Tree β} {k : Int64} {v : β} :
    ¬(node color l k v r).Part leaf := by
  intro hpart
  cases hpart

theorem hasKey_leaf {key : Int64} :
    ¬(leaf : Tree β).HasKey key := by
  intro hkey
  rcases hkey with ⟨color, l, v, r, hpart⟩
  exact not_part_leaf hpart

theorem hasKey_node {color : Color} {l r : Tree β} {k key : Int64} {v : β} :
    (node color l k v r).HasKey key ↔ key = k ∨ r.HasKey key ∨ l.HasKey key := by
  constructor
  · intro hkey
    rcases hkey with ⟨color', l', v', r', hpart⟩
    cases hpart with
    | self =>
        exact Or.inl rfl
    | left hpart =>
        exact Or.inr (Or.inr ⟨color', l', v', r', hpart⟩)
    | right hpart =>
        exact Or.inr (Or.inl ⟨color', l', v', r', hpart⟩)
  · intro hkey
    rcases hkey with rfl | ⟨color', l', v', r', hpart⟩ | ⟨color', l', v', r', hpart⟩
    · exact ⟨color, l, v, r, Part.self⟩
    · exact ⟨color', l', v', r', Part.right hpart⟩
    · exact ⟨color', l', v', r', Part.left hpart⟩

theorem hasKey_iff_exists_entry {t : Tree β} {key : Int64} :
    t.HasKey key ↔ exists entry, entry ∈ t.toList ∧ entry.1 = key := by
  induction t with
  | leaf =>
      simp [hasKey_leaf, toList]
  | node color l k v r ihl ihr =>
      rw [hasKey_node, ihl, ihr]
      simp only [toList, List.mem_cons, List.mem_append, or_and_right, exists_or,
        exists_eq_left, eq_comm (a := k)]

theorem forall_hasKey_iff {t : Tree β} {P : Int64 -> Prop} :
    (forall key, t.HasKey key -> P key) ↔ forall entry, entry ∈ t.toList -> P entry.1 := by
  simp only [hasKey_iff_exists_entry]
  constructor
  · intro hkeys entry hentry
    exact hkeys entry.1 ⟨entry, hentry, rfl⟩
  · intro hentries key hkey
    rcases hkey with ⟨entry, hentry, rfl⟩
    exact hentries entry hentry

/-! ## The rules at every node -/

theorem isRed_eq_false_iff {t : Tree β} :
    t.isRed = false ↔ t = leaf ∨ exists l k v r, t = node .black l k v r := by
  cases t with
  | leaf =>
      simp [isRed]
  | node color l k v r =>
      cases color <;> simp [isRed]

theorem noRedRed_iff_parts {t : Tree β} :
    t.NoRedRed ↔
      forall color l k v r, (node color l k v r).Part t ->
        color = .red -> l.isRed = false ∧ r.isRed = false := by
  induction t with
  | leaf =>
      simp [NoRedRed, not_part_leaf]
  | node color l k v r ihl ihr =>
      rw [forall_part_node (P := fun color l _ _ r => color = .red -> l.isRed = false ∧
        r.isRed = false), NoRedRed, ihl, ihr]

theorem ordered_iff_parts {t : Tree β} :
    t.Ordered ↔
      forall color l k v r, (node color l k v r).Part t ->
        (forall key, l.HasKey key -> key < k) ∧ (forall key, r.HasKey key -> k < key) := by
  induction t with
  | leaf =>
      simp [Ordered, not_part_leaf]
  | node color l k v r ihl ihr =>
      rw [forall_part_node (P := fun _ l k _ r => (forall key, l.HasKey key -> key < k) ∧
        (forall key, r.HasKey key -> k < key)), Ordered, ihl, ihr, forall_hasKey_iff,
        forall_hasKey_iff, and_assoc]

end Tree

namespace Index

variable {β : Type}

/--
Of any tree whatsoever the check answers a height if and only if the root is not red, at every node
the colours and the keys on either side are as they should be, and every way from the root to an
empty place passes that many black nodes.
-/
theorem blackHeight?_eq_some_iff_rules (index : Index β) (height : Nat) :
    index.blackHeight? = some height ↔
      (index.root = .leaf ∨ exists l k v r, index.root = .node .black l k v r) ∧
        (forall color l k v r, (Tree.node color l k v r).Part index.root ->
          (color = .red -> l.isRed = false ∧ r.isRed = false) ∧
            (forall key, l.HasKey key -> key < k) ∧ (forall key, r.HasKey key -> k < key)) ∧
        forall way, index.root.Way way -> way.count .black = height := by
  unfold blackHeight?
  rw [Tree.blackHeight?_iff_redBlack, ← Tree.isRed_eq_false_iff]
  constructor
  · intro h
    refine ⟨h.root, ?_, h.black⟩
    intro color l k v r hpart
    exact ⟨Tree.noRedRed_iff_parts.mp h.calm color l k v r hpart,
      Tree.ordered_iff_parts.mp h.ordered color l k v r hpart⟩
  · intro hrules
    rcases hrules with ⟨hroot, hparts, hways⟩
    constructor
    · exact hroot
    · exact Tree.noRedRed_iff_parts.mpr fun color l k v r hpart => (hparts color l k v r hpart).1
    · exact hways
    · exact Tree.ordered_iff_parts.mpr fun color l k v r hpart => (hparts color l k v r hpart).2

/-- The key 9 is in order with its parent, but not with the root above it. -/
example :
    ({ root := .node .black (.node .black .leaf 1 () (.node .red .leaf 9 () .leaf)) 5 ()
        (.node .black .leaf 7 () .leaf), size := 4 } : Index Unit).blackHeight? = none := by
  decide

end Index

end ValueStore
