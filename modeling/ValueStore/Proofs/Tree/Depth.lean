import Mathlib.Algebra.Ring.Nat
import ValueStore.Proofs.Tree.Walk

/-!
# How deep a tree is

A red-black tree of some black height has many nodes, and no way down it is longer than
twice that height. So the ways down are short in terms of the number of nodes, and with
them everything that goes down a tree: looking up, inserting and editing are called once
at each node on the way to a key and once where it ends. A walk keeps at most as many
subtrees on its stack as the longest way down has nodes, since what waits below a subtree
on the stack branched off the way to it. In the middle of a call, with a node taken off and
not both of its subtrees put on, there are no more of them than before it or behind it.
-/

namespace ValueStore

namespace Tree

variable {β ε : Type}

def depth : Tree β -> Nat
  | leaf => 0
  | node _ l _ _ r => max l.depth r.depth + 1

theorem Way.length_le_depth {t : Tree β} {way : List Color} (hway : t.Way way) :
    way.length ≤ t.depth := by
  induction hway with
  | leaf =>
      exact Nat.le_refl 0
  | left hway ih =>
      exact Nat.succ_le_succ (Nat.le_trans ih (Nat.le_max_left _ _))
  | right hway ih =>
      exact Nat.succ_le_succ (Nat.le_trans ih (Nat.le_max_right _ _))

/-! ## Depth, black height and number of nodes -/

/-- At most every second node on a way down is red, and the first only if the root is. -/
theorem NoRedRed.depth_le {t : Tree β} (hcalm : t.NoRedRed) {height : Nat}
    (hblack : t.BlackHeight height) :
    t.depth ≤ 2 * height + 1 ∧ (t.isRed = false -> t.depth ≤ 2 * height) := by
  induction t generalizing height with
  | leaf =>
      exact ⟨Nat.zero_le _, fun _ => Nat.zero_le _⟩
  | node color l k v r ihl ihr =>
      rcases hcalm with ⟨hcolor, hl, hr⟩
      rcases blackHeight_node.mp hblack with ⟨below, hlBlack, hrBlack, rfl⟩
      rcases ihl hl hlBlack with ⟨hlDepth, hlCalm⟩
      rcases ihr hr hrBlack with ⟨hrDepth, hrCalm⟩
      cases color with
      | red =>
          rcases hcolor rfl with ⟨hlRoot, hrRoot⟩
          have hchildren := Nat.max_le.mpr ⟨hlCalm hlRoot, hrCalm hrRoot⟩
          exact ⟨Nat.succ_le_succ hchildren, nofun⟩
      | black =>
          have hchildren := Nat.max_le.mpr ⟨hlDepth, hrDepth⟩
          have hnode : max l.depth r.depth + 1 ≤ 2 * (below + 1) := Nat.succ_le_succ hchildren
          exact ⟨Nat.le_succ_of_le hnode, fun _ => hnode⟩

theorem BlackHeight.two_pow_le {t : Tree β} {height : Nat} (hblack : t.BlackHeight height) :
    2 ^ height ≤ t.count + 1 := by
  induction t generalizing height with
  | leaf =>
      rw [blackHeight_leaf.mp hblack]
      exact Nat.le_refl 1
  | node color l k v r ihl ihr =>
      rcases blackHeight_node.mp hblack with ⟨below, hlBlack, hrBlack, rfl⟩
      have hlCount := ihl hlBlack
      have hrCount := ihr hrBlack
      have hdouble : 2 ^ (below + 1) = 2 ^ below + 2 ^ below := by omega
      rw [count]
      split <;> omega

theorem RedBlack.depth_le {t : Tree β} {height : Nat} (h : t.RedBlack height) :
    t.depth ≤ 2 * height :=
  (h.calm.depth_le h.black).2 h.root

theorem RedBlack.height_le_log2 {t : Tree β} {height : Nat} (h : t.RedBlack height) :
    height ≤ Nat.log2 (t.count + 1) :=
  (Nat.le_log2 (Nat.succ_ne_zero _)).mpr h.black.two_pow_le

/-! ## Nested calls -/

/-- The number of nested calls that going down to the place of a key takes. -/
def calls (key : Int64) : Tree β -> Nat
  | leaf => 1
  | node _ l k _ r =>
      if key < k then l.calls key + 1
      else if k < key then r.calls key + 1
      else 1

theorem calls_le_depth (key : Int64) (t : Tree β) :
    t.calls key ≤ t.depth + 1 := by
  induction t with
  | leaf =>
      exact Nat.le_refl 1
  | node color l k v r ihl ihr =>
      unfold calls depth
      split
      · exact Nat.succ_le_succ (Nat.le_trans ihl (Nat.succ_le_succ (Nat.le_max_left _ _)))
      · split
        · exact Nat.succ_le_succ (Nat.le_trans ihr (Nat.succ_le_succ (Nat.le_max_right _ _)))
        · exact Nat.succ_le_succ (Nat.zero_le _)

/-- Looks a key up, unless that takes more nested calls than there is room for. -/
def getWithin? (key : Int64) : Nat -> Tree β -> Option (Option β)
  | 0, _ => none
  | _ + 1, leaf => some none
  | room + 1, node _ l k v r =>
      if key < k then l.getWithin? key room
      else if k < key then r.getWithin? key room
      else some (some v)

def insertWithin? (handler : Handler β ε) (key : Int64) (value : β) :
    Nat -> Tree β -> Option (Tree β × Bool)
  | 0, _ => none
  | _ + 1, leaf => some (node .red leaf key value leaf, true)
  | room + 1, node color l k v r =>
      if key < k then do
        let (l', added) ← l.insertWithin? handler key value room
        return (balance color l' k v r, added)
      else if k < key then do
        let (r', added) ← r.insertWithin? handler key value room
        return (balance color l k v r', added)
      else
        some (node color l k (handler.merge v value) r, false)

def modifyWithin? (handler : Handler β ε) (key : Int64) (edit : ε) :
    Nat -> Tree β -> Option (Option (Tree β))
  | 0, _ => none
  | _ + 1, leaf => some none
  | room + 1, node color l k v r =>
      if key < k then do
        let edited ← l.modifyWithin? handler key edit room
        return edited.map fun l' => node color l' k v r
      else if k < key then do
        let edited ← r.modifyWithin? handler key edit room
        return edited.map fun r' => node color l k v r'
      else
        some ((handler.edit v edit).map fun v' => node color l k v' r)

theorem calls_pos (key : Int64) (t : Tree β) :
    0 < t.calls key := by
  cases t with
  | leaf =>
      exact Nat.one_pos
  | node color l k v r =>
      unfold calls
      split
      · exact Nat.succ_pos _
      · split <;> exact Nat.succ_pos _

theorem getWithin?_eq (key : Int64) (room : Nat) (t : Tree β) :
    t.getWithin? key room = if t.calls key ≤ room then some (t.get? key) else none := by
  induction t generalizing room with
  | leaf =>
      cases room <;> simp [getWithin?, calls, get?]
  | node color l k v r ihl ihr =>
      cases room with
      | zero =>
          exact (if_neg (Nat.not_le.mpr (calls_pos key _))).symm
      | succ room =>
          unfold getWithin? calls get?
          split
          · simp only [ihl, Nat.add_le_add_iff_right]
          · split
            · simp only [ihr, Nat.add_le_add_iff_right]
            · simp

theorem insertWithin?_eq (handler : Handler β ε) (key : Int64) (value : β) (room : Nat)
    (t : Tree β) :
    t.insertWithin? handler key value room =
      if t.calls key ≤ room then some (t.insert handler key value) else none := by
  induction t generalizing room with
  | leaf =>
      cases room <;> simp [insertWithin?, calls, insert]
  | node color l k v r ihl ihr =>
      cases room with
      | zero =>
          exact (if_neg (Nat.not_le.mpr (calls_pos key _))).symm
      | succ room =>
          unfold insertWithin? calls insert
          split
          · simp only [ihl, Nat.add_le_add_iff_right]
            split <;> rfl
          · split
            · simp only [ihr, Nat.add_le_add_iff_right]
              split <;> rfl
            · simp

theorem modifyWithin?_eq (handler : Handler β ε) (key : Int64) (edit : ε) (room : Nat)
    (t : Tree β) :
    t.modifyWithin? handler key edit room =
      if t.calls key ≤ room then some (t.modify? handler key edit) else none := by
  induction t generalizing room with
  | leaf =>
      cases room <;> simp [modifyWithin?, calls, modify?]
  | node color l k v r ihl ihr =>
      cases room with
      | zero =>
          exact (if_neg (Nat.not_le.mpr (calls_pos key _))).symm
      | succ room =>
          unfold modifyWithin? calls modify?
          split
          · simp only [ihl, Nat.add_le_add_iff_right]
            split <;> rfl
          · split
            · simp only [ihr, Nat.add_le_add_iff_right]
              split <;> rfl
            · simp

end Tree

namespace Walk

variable {β : Type}

/--
Nothing empty waits on the stack, and each subtree on it is less deep than the bound by what waits
below it.
-/
inductive Fits (bound : Nat) : List (Tree β) -> Prop where
  | nil : Fits bound []
  | cons {t : Tree β} {below : List (Tree β)} :
      t ≠ .leaf -> t.depth + below.length ≤ bound -> Fits bound below -> Fits bound (t :: below)

theorem Fits.length_le {bound : Nat} {stack : List (Tree β)} (h : Fits bound stack) :
    stack.length ≤ bound := by
  cases h with
  | nil =>
      exact Nat.zero_le bound
  | @cons t below hnode hroom _hbelow =>
      cases t with
      | leaf =>
          exact (hnode rfl).elim
      | node color l k v r =>
          rw [Tree.depth] at hroom
          rw [List.length_cons]
          omega

theorem Fits.push {bound : Nat} {stack : List (Tree β)} (h : Fits bound stack) {t : Tree β}
    (hroom : t.depth + stack.length ≤ bound) :
    Fits bound (push t stack) := by
  cases t with
  | leaf =>
      exact h
  | node color l k v r =>
      exact Fits.cons (by simp) hroom h

theorem length_push_le (t : Tree β) (stack : List (Tree β)) :
    (push t stack).length ≤ stack.length + 1 := by
  cases t with
  | leaf =>
      exact Nat.le_succ _
  | node color l k v r =>
      exact Nat.le_refl _

/-- The right subtree of a node waits above the left one, and both are less deep than the node. -/
theorem Fits.next? {bound : Nat} {walk after : Walk β} {entry : Int64 × β}
    (h : Fits bound walk.stack) (hnext : walk.next? = some (entry, after)) :
    Fits bound after.stack := by
  rcases walk with ⟨stack, remaining⟩
  cases h with
  | nil =>
      cases hnext
  | @cons t below hnode hroom hbelow =>
      cases t with
      | leaf =>
          cases hnext
      | node color l k v r =>
          cases hnext
          have hlength := length_push_le l below
          rw [Tree.depth] at hroom
          have hl : Fits bound (Walk.push l below) := hbelow.push (by omega)
          exact hl.push (by omega)

theorem Fits.draw {bound : Nat} {walk : Walk β} (h : Fits bound walk.stack) (n : Nat) :
    Fits bound (walk.draw n).2.stack := by
  induction n generalizing walk with
  | zero =>
      exact h
  | succ n ih =>
      cases hnext : walk.next? with
      | none =>
          rw [draw_of_next?_eq_none hnext]
          exact h
      | some drawn =>
          unfold Walk.draw
          rw [hnext]
          exact ih (h.next? hnext)

theorem fits_ofIndex (index : Index β) :
    Fits index.root.depth (ofIndex index).stack :=
  Fits.nil.push (Nat.le_refl _)

end Walk

namespace Index

variable {β ε : Type}

def getWithin? (index : Index β) (key : Int64) (room : Nat) : Option (Option β) :=
  index.root.getWithin? key room

def putWithin? (handler : Handler β ε) (index : Index β) (key : Int64) (value : β)
    (room : Nat) : Option (Index β) := do
  let (root, added) ← index.root.insertWithin? handler key value room
  return { root := root.blacken, size := if added then index.size + 1 else index.size }

def modifyWithin? (handler : Handler β ε) (index : Index β) (key : Int64) (edit : ε)
    (room : Nat) : Option (Index β × Bool) := do
  match ← index.root.modifyWithin? handler key edit room with
  | some root => return ({ index with root := root }, true)
  | none => return (index, false)

theorem putWithin?_eq (handler : Handler β ε) (index : Index β) (key : Int64) (value : β)
    (room : Nat) :
    index.putWithin? handler key value room =
      if index.root.calls key ≤ room then some (index.put handler key value) else none := by
  unfold putWithin?
  rw [Tree.insertWithin?_eq]
  split <;> rfl

theorem modifyWithin?_eq (handler : Handler β ε) (index : Index β) (key : Int64) (edit : ε)
    (room : Nat) :
    index.modifyWithin? handler key edit room =
      if index.root.calls key ≤ room then some (index.modify handler key edit) else none := by
  unfold modifyWithin? modify
  rw [Tree.modifyWithin?_eq]
  split
  · cases index.root.modify? handler key edit <;> rfl
  · rfl

/--
After every run of insertions and edits no way down is longer than twice the black height, which is
at most the logarithm of the number of nodes. Looking up, inserting and editing at a key take the
same number of nested calls, at most one more than that, and a walk never has more subtrees on its
stack than a way down can have nodes.
-/
theorem run_empty_shallow (handler : Handler β ε) (steps : List (Step β ε)) :
    let index := empty.run handler steps
    let limit := 2 * Nat.log2 (index.size + 1)
    index.size = index.root.count ∧
      (exists height, index.blackHeight? = some height ∧ 2 ^ height - 1 ≤ index.size ∧
        (forall way, index.root.Way way -> way.length ≤ 2 * height) ∧ 2 * height ≤ limit) ∧
      (forall key, index.root.calls key ≤ limit + 1) ∧
      (forall key room, index.getWithin? key room =
        if index.root.calls key ≤ room then some (index.get? key) else none) ∧
      (forall key value room, index.putWithin? handler key value room =
        if index.root.calls key ≤ room then some (index.put handler key value) else none) ∧
      (forall key edit room, index.modifyWithin? handler key edit room =
        if index.root.calls key ≤ room then some (index.modify handler key edit) else none) ∧
      forall n, ((Walk.ofIndex index).draw n).2.stack.length ≤ limit := by
  intro index limit
  have h : index.RedBlack := redBlack_empty.run handler steps
  rcases h.tree with ⟨height, htree⟩
  have hlog := htree.height_le_log2
  rw [← h.counted] at hlog
  have hheight : 2 * height ≤ limit := Nat.mul_le_mul_left 2 hlog
  have hdepth : index.root.depth ≤ limit := Nat.le_trans htree.depth_le hheight
  refine ⟨h.counted, ⟨height, Tree.blackHeight?_iff_redBlack.mpr htree, ?_, ?_, hheight⟩,
    ?_, ?_, ?_, ?_, ?_⟩
  · rw [h.counted]
    exact Nat.sub_le_of_le_add htree.black.two_pow_le
  · exact fun way hway => Nat.le_trans hway.length_le_depth htree.depth_le
  · exact fun key => Nat.le_trans (index.root.calls_le_depth key) (Nat.succ_le_succ hdepth)
  · exact fun key room => index.root.getWithin?_eq key room
  · exact fun key value room => index.putWithin?_eq handler key value room
  · exact fun key edit room => index.modifyWithin?_eq handler key edit room
  · intro n
    have hfits := (Walk.fits_ofIndex index).draw n
    exact Nat.le_trans hfits.length_le hdepth

end Index

end ValueStore
