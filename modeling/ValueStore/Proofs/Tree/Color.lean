import ValueStore.Proofs.Tree.Order
import ValueStore.Tree.BlackHeight

/-!
# The colours of a tree

No red node has a red child, and every way down passes the same number of black
nodes. An insertion keeps that number below a root whose colour is still open, and
leaves at most one red node with a red child, namely the root.
-/

namespace ValueStore

namespace Tree

variable {β ε : Type}

/-- The colours of the nodes on a way from the root down to an empty place. -/
inductive Way : Tree β -> List Color -> Prop where
  | leaf : Way leaf []
  | left {color : Color} {l r : Tree β} {k : Int64} {v : β} {way : List Color} :
      Way l way -> Way (node color l k v r) (color :: way)
  | right {color : Color} {l r : Tree β} {k : Int64} {v : β} {way : List Color} :
      Way r way -> Way (node color l k v r) (color :: way)

def BlackHeight (t : Tree β) (height : Nat) : Prop :=
  forall way, t.Way way -> way.count .black = height

def NoRedRed : Tree β -> Prop
  | leaf => True
  | node color l _ _ r =>
      (color = .red -> l.isRed = false ∧ r.isRed = false) ∧ l.NoRedRed ∧ r.NoRedRed

/-- No red node has a red child, save perhaps the root. -/
def NoRedRedBelow : Tree β -> Prop
  | leaf => True
  | node _ l _ _ r => l.NoRedRed ∧ r.NoRedRed

/-! ## Black heights -/

theorem exists_way (t : Tree β) :
    exists way, t.Way way := by
  induction t with
  | leaf =>
      exact ⟨[], Way.leaf⟩
  | node color l k v r ihl ihr =>
      rcases ihl with ⟨way, hway⟩
      exact ⟨color :: way, Way.left hway⟩

@[simp] theorem blackHeight_leaf {height : Nat} :
    (leaf : Tree β).BlackHeight height ↔ height = 0 := by
  constructor
  · intro h
    exact (h [] Way.leaf).symm
  · intro hzero way hway
    subst hzero
    cases hway
    rfl

@[simp] theorem blackHeight_red {l r : Tree β} {k : Int64} {v : β} {height : Nat} :
    (node .red l k v r).BlackHeight height ↔ l.BlackHeight height ∧ r.BlackHeight height := by
  constructor
  · intro h
    constructor
    · intro way hway
      simpa using h _ (Way.left hway)
    · intro way hway
      simpa using h _ (Way.right hway)
  · intro hheights way hway
    rcases hheights with ⟨hl, hr⟩
    cases hway with
    | left hway =>
        simpa using hl _ hway
    | right hway =>
        simpa using hr _ hway

@[simp] theorem blackHeight_black {l r : Tree β} {k : Int64} {v : β} {height : Nat} :
    (node .black l k v r).BlackHeight (height + 1) ↔
      l.BlackHeight height ∧ r.BlackHeight height := by
  constructor
  · intro h
    constructor
    · intro way hway
      simpa using h _ (Way.left hway)
    · intro way hway
      simpa using h _ (Way.right hway)
  · intro hheights way hway
    rcases hheights with ⟨hl, hr⟩
    cases hway with
    | left hway =>
        simpa using hl _ hway
    | right hway =>
        simpa using hr _ hway

@[simp] theorem not_blackHeight_black_zero {l r : Tree β} {k : Int64} {v : β} :
    ¬(node .black l k v r).BlackHeight 0 := by
  intro h
  rcases l.exists_way with ⟨way, hway⟩
  simpa using h _ (Way.left hway)

theorem blackHeight_node {color : Color} {l r : Tree β} {k : Int64} {v : β} {height : Nat} :
    (node color l k v r).BlackHeight height ↔
      exists h, l.BlackHeight h ∧ r.BlackHeight h ∧
        height = if color = .black then h + 1 else h := by
  cases color with
  | red =>
      simp
  | black =>
      cases height <;> simp

/-! ## Rebalancing -/

theorem blackHeight_balance {color : Color} {l r : Tree β} {k : Int64} {v : β} {height : Nat} :
    (balance color l k v r).BlackHeight height ↔ (node color l k v r).BlackHeight height := by
  unfold balance
  split <;> cases height <;> simp [and_assoc]

theorem balance_red (l : Tree β) (k : Int64) (v : β) (r : Tree β) :
    balance .red l k v r = node .red l k v r := by
  unfold balance
  split <;> simp_all

theorem balance_of_noRedRed {color : Color} {l r : Tree β} {k : Int64} {v : β}
    (hl : l.NoRedRed) (hr : r.NoRedRed) :
    balance color l k v r = node color l k v r := by
  unfold balance
  split <;> simp_all [NoRedRed, isRed]

theorem NoRedRed.below {t : Tree β} (h : t.NoRedRed) :
    t.NoRedRedBelow := by
  cases t with
  | leaf =>
      trivial
  | node color l k v r =>
      exact h.2

theorem NoRedRedBelow.blacken {t : Tree β} (h : t.NoRedRedBelow) :
    t.blacken.NoRedRed := by
  cases t with
  | leaf =>
      trivial
  | node color l k v r =>
      exact ⟨by simp, h⟩

theorem noRedRed_of_root {t : Tree β} (h : t.NoRedRedBelow)
    (hleft : forall a xk xv b yk yv c, t = node .red (node .red a xk xv b) yk yv c -> False)
    (hright : forall a xk xv b yk yv c, t = node .red a xk xv (node .red b yk yv c) -> False) :
    t.NoRedRed := by
  cases t with
  | leaf =>
      trivial
  | node color l k v r =>
      refine ⟨?_, h⟩
      intro hred
      subst hred
      constructor
      · cases l with
        | leaf =>
            rfl
        | node color a xk xv b =>
            cases color with
            | red =>
                exact (hleft a xk xv b k v r rfl).elim
            | black =>
                rfl
      · cases r with
        | leaf =>
            rfl
        | node color b yk yv c =>
            cases color with
            | red =>
                exact (hright l k v b yk yv c rfl).elim
            | black =>
                rfl

theorem noRedRed_balance {l r : Tree β} {k : Int64} {v : β}
    (hl : l.NoRedRedBelow) (hr : r.NoRedRedBelow) (hone : l.NoRedRed ∨ r.NoRedRed) :
    (balance .black l k v r).NoRedRed := by
  unfold balance
  split
  · simp_all [NoRedRed, NoRedRedBelow, isRed]
  · simp_all [NoRedRed, NoRedRedBelow, isRed]
  · simp_all [NoRedRed, NoRedRedBelow, isRed]
  · simp_all [NoRedRed, NoRedRedBelow, isRed]
  · rename_i hll hlr hrr hrl
    refine ⟨by simp, noRedRed_of_root hl ?_ ?_, noRedRed_of_root hr ?_ ?_⟩
    · exact fun a xk xv b yk yv c => hll a xk xv b yk yv c rfl
    · exact fun a xk xv b yk yv c => hlr a xk xv b yk yv c rfl
    · exact fun a xk xv b yk yv c => hrl a xk xv b yk yv c rfl
    · exact fun a xk xv b yk yv c => hrr a xk xv b yk yv c rfl

/-! ## Inserting -/

theorem BlackHeight.insert {t : Tree β} {height : Nat} (h : t.BlackHeight height)
    (handler : Handler β ε) (key : Int64) (value : β) :
    (t.insert handler key value).1.BlackHeight height := by
  induction t generalizing height with
  | leaf =>
      simpa [Tree.insert] using h
  | node color l k v r ihl ihr =>
      rcases blackHeight_node.mp h with ⟨below, hl, hr, hheight⟩
      rw [insert_node]
      split
      · exact blackHeight_balance.mpr (blackHeight_node.mpr ⟨below, ihl hl, hr, hheight⟩)
      · split
        · exact blackHeight_balance.mpr (blackHeight_node.mpr ⟨below, hl, ihr hr, hheight⟩)
        · exact blackHeight_node.mpr ⟨below, hl, hr, hheight⟩

/--
Inserting leaves at most the root red with a red child, and that only if the root was red before.
-/
theorem NoRedRed.insert {t : Tree β} (h : t.NoRedRed) (handler : Handler β ε)
    (key : Int64) (value : β) :
    (t.insert handler key value).1.NoRedRedBelow ∧
      (t.isRed = false -> (t.insert handler key value).1.NoRedRed) := by
  induction t with
  | leaf =>
      simp [Tree.insert, NoRedRed, NoRedRedBelow, isRed]
  | node color l k v r ihl ihr =>
      rcases h with ⟨hcolor, hl, hr⟩
      rcases ihl hl with ⟨hlBelow, hlCalm⟩
      rcases ihr hr with ⟨hrBelow, hrCalm⟩
      rw [insert_node]
      cases color with
      | red =>
          -- A red node has no red child, so below it the result is calm at its root as well.
          rcases hcolor rfl with ⟨hlRoot, hrRoot⟩
          constructor
          · split
            · rw [balance_red]
              exact ⟨hlCalm hlRoot, hr⟩
            · split
              · rw [balance_red]
                exact ⟨hl, hrCalm hrRoot⟩
              · exact ⟨hl, hr⟩
          · intro hroot
            cases hroot
      | black =>
          split
          · have hcalm := noRedRed_balance (k := k) (v := v) hlBelow hr.below (Or.inr hr)
            exact ⟨hcalm.below, fun _ => hcalm⟩
          · split
            · have hcalm := noRedRed_balance (k := k) (v := v) hl.below hrBelow (Or.inl hl)
              exact ⟨hcalm.below, fun _ => hcalm⟩
            · exact ⟨⟨hl, hr⟩, fun _ => ⟨by simp, hl, hr⟩⟩

theorem BlackHeight.blacken {t : Tree β} {height : Nat} (h : t.BlackHeight height) :
    t.blacken.BlackHeight (if t.isRed then height + 1 else height) := by
  cases t with
  | leaf =>
      exact h
  | node color l k v r =>
      cases color with
      | red =>
          simpa [Tree.blacken, isRed] using h
      | black =>
          exact h

theorem isRed_blacken (t : Tree β) :
    t.blacken.isRed = false := by
  cases t <;> rfl

/-! ## Edits and repeated keys -/

def skeleton : Tree β -> Tree Unit
  | leaf => leaf
  | node color l k _ r => node color l.skeleton k () r.skeleton

theorem isRed_skeleton (t : Tree β) :
    t.skeleton.isRed = t.isRed := by
  cases t with
  | leaf =>
      rfl
  | node color l k v r =>
      cases color <;> rfl

theorem noRedRed_skeleton (t : Tree β) :
    t.skeleton.NoRedRed ↔ t.NoRedRed := by
  induction t with
  | leaf =>
      rfl
  | node color l k v r ihl ihr =>
      simp [skeleton, NoRedRed, isRed_skeleton, ihl, ihr]

theorem blackHeight_skeleton (t : Tree β) (height : Nat) :
    t.skeleton.BlackHeight height ↔ t.BlackHeight height := by
  induction t generalizing height with
  | leaf =>
      simp [skeleton]
  | node color l k v r ihl ihr =>
      simp [skeleton, blackHeight_node, ihl, ihr]

theorem checkedHeight?_skeleton (t : Tree β) (lower upper : Option Int64) :
    t.skeleton.checkedHeight? lower upper = t.checkedHeight? lower upper := by
  induction t generalizing lower upper with
  | leaf =>
      rfl
  | node color l k v r ihl ihr =>
      simp [skeleton, checkedHeight?, isRed_skeleton, ihl, ihr]

theorem blackHeight?_skeleton (t : Tree β) :
    t.skeleton.blackHeight? = t.blackHeight? := by
  simp [blackHeight?, isRed_skeleton, checkedHeight?_skeleton]

theorem skeleton_modify? {handler : Handler β ε} {key : Int64} {edit : ε} {t t' : Tree β}
    (hmodify : t.modify? handler key edit = some t') :
    t'.skeleton = t.skeleton := by
  induction t generalizing t' with
  | leaf =>
      cases hmodify
  | node color l k v r ihl ihr =>
      unfold modify? at hmodify
      split at hmodify
      · rcases Option.map_eq_some_iff.mp hmodify with ⟨l', hl', rfl⟩
        simp [skeleton, ihl hl']
      · split at hmodify
        · rcases Option.map_eq_some_iff.mp hmodify with ⟨r', hr', rfl⟩
          simp [skeleton, ihr hr']
        · rcases Option.map_eq_some_iff.mp hmodify with ⟨v', _hedit, rfl⟩
          rfl

theorem skeleton_insert (handler : Handler β ε) {key : Int64} (value : β) {old : β} {t : Tree β}
    (hcalm : t.NoRedRed) (hget : t.get? key = some old) :
    (t.insert handler key value).1.skeleton = t.skeleton := by
  induction t with
  | leaf =>
      cases hget
  | node color l k v r ihl ihr =>
      rcases hcalm with ⟨_hcolor, hl, hr⟩
      unfold get? at hget
      rw [insert_node]
      split at hget
      · rename_i hlt
        have hskeleton := ihl hl hget
        have hl' := (noRedRed_skeleton _).mp (hskeleton ▸ (noRedRed_skeleton l).mpr hl)
        rw [if_pos hlt, balance_of_noRedRed hl' hr]
        simp [skeleton, hskeleton]
      · split at hget
        · rename_i hlt hgt
          have hskeleton := ihr hr hget
          have hr' := (noRedRed_skeleton _).mp (hskeleton ▸ (noRedRed_skeleton r).mpr hr)
          rw [if_neg hlt, if_pos hgt, balance_of_noRedRed hl hr']
          simp [skeleton, hskeleton]
        · rename_i hlt hgt
          rw [if_neg hlt, if_neg hgt]
          rfl

end Tree

end ValueStore
