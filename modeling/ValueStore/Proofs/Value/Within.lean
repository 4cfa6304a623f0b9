import ValueStore.Proofs.Dictionary.Plain
import ValueStore.Proofs.Sequence.Agreement
import ValueStore.Value.Equality

/-!
# What is in a value

In a value are the elements of lists and the live keys and values of maps, to any depth.
Comparing and hashing read no other lists than these, so they do not depend on what the
cells keep as long as the cells are faithful to the lists in the values at hand.
-/

namespace ValueStore

namespace Value

/-- What can be reached in a value, the value itself included. -/
inductive Within : Value -> Value -> Prop where
  | self {v : Value} : Within v v
  | element {items : Sequence Value} {v x : Value} :
      v ∈ items.toList -> Within x v -> Within x (list items)
  | key {m : ValueMap} {entry : Value × Value} {x : Value} :
      entry ∈ m.toList -> Within x entry.1 -> Within x (map m)
  | value {m : ValueMap} {entry : Value × Value} {x : Value} :
      entry ∈ m.toList -> Within x entry.2 -> Within x (map m)

def ListsKnown (Known : Sequence Value -> Prop) (v : Value) : Prop :=
  forall items, (list items).Within v -> Known items

variable {Known : Sequence Value -> Prop}

theorem ListsKnown.items {items : Sequence Value} (h : ListsKnown Known (list items)) :
    Known items :=
  h items Within.self

theorem ListsKnown.element {items : Sequence Value} (h : ListsKnown Known (list items))
    {v : Value} (hv : v ∈ items.toList) :
    ListsKnown Known v :=
  fun inner hinner => h inner (Within.element hv hinner)

theorem ListsKnown.keys {m : ValueMap} (h : ListsKnown Known (map m)) :
    m.KeysKnown (ListsKnown Known) :=
  fun _ hentry inner hinner => h inner (Within.key hentry hinner)

theorem ListsKnown.values {m : ValueMap} (h : ListsKnown Known (map m)) :
    m.ValuesKnown (ListsKnown Known) :=
  fun _ hentry inner hinner => h inner (Within.value hentry hinner)

theorem listsKnown_integer (n : Int64) :
    ListsKnown Known (integer n) := by
  intro items hitems
  cases hitems

theorem listsKnown_float (x : Binary64) :
    ListsKnown Known (float x) := by
  intro items hitems
  cases hitems

theorem listsKnown_list {items : Sequence Value} (hitems : Known items)
    (helements : forall v, v ∈ items.toList -> ListsKnown Known v) :
    ListsKnown Known (list items) := by
  intro inner hinner
  cases hinner with
  | self =>
      exact hitems
  | element hv hinner =>
      exact helements _ hv inner hinner

theorem listsKnown_map {m : ValueMap}
    (hkeys : forall entry, entry ∈ m.toList -> ListsKnown Known entry.1)
    (hvalues : forall entry, entry ∈ m.toList -> ListsKnown Known entry.2) :
    ListsKnown Known (map m) := by
  intro inner hinner
  cases hinner with
  | key hentry hinner =>
      exact hkeys _ hentry inner hinner
  | value hentry hinner =>
      exact hvalues _ hentry inner hinner

/-! ## Hashing -/

theorem plain_encodingAt (bound : Nat) {v : Value} (hv : ListsKnown Known v) :
    (encodingAt bound v).Plain Known := by
  induction bound generalizing v with
  | zero =>
      exact Action.plain_fail _
  | succ bound ih =>
      cases v with
      | list items =>
          apply (Action.plain_elements hv.items).bind
          intro elements helements
          cases helements
          refine Action.Plain.bind (Action.plain_mapM ?_) fun _ _ => Action.plain_done _
          intro x hx
          exact (ih (hv.element hx)).bind fun _ _ => Action.plain_done _
      | map m =>
          exact Action.plain_fail _
      | function handle =>
          exact Action.plain_fail _
      | channel handle =>
          exact Action.plain_fail _
      | foreign handle =>
          exact Action.plain_fail _
      | _ =>
          exact Action.plain_done _

theorem plain_hash {v : Value} (hv : ListsKnown Known v) :
    v.hash.Plain Known :=
  (plain_encodingAt v.height hv).bind fun _ _ => Action.plain_done _

/-! ## Comparing -/

theorem plain_agreeAt (bound : Nat) {a b : Value} (ha : ListsKnown Known a)
    (hb : ListsKnown Known b) :
    (agreeAt bound a b).Plain Known := by
  induction bound generalizing a b with
  | zero =>
      exact Action.plain_fail _
  | succ bound ih =>
      unfold agreeAt
      dsimp only
      split
      · exact Action.plain_done _
      · exact Action.plain_done _
      · exact Action.plain_done _
      · exact Action.plain_done _
      · apply Sequence.plain_agree ha.items hb.items
        intro x hx y hy
        exact ih (ha.element hx) (hb.element hy)
      · have hkeying : Keying.Plain { hash := hash, same := agreeAt bound } Known
            (ListsKnown Known) :=
          ⟨fun key hkey => plain_hash hkey, fun stored sought hstored hsought =>
            ih hstored hsought⟩
        apply Dictionary.plain_agree hkeying ha.keys hb.keys
        · intro d hd e he
          exact ih (ha.values d hd) (hb.values e he)
        · intro d hd e he
          exact ih (hb.values d hd) (ha.values e he)
      · split
        · exact Action.plain_done _
        · split
          · exact Action.plain_done _
          · exact Action.plain_fail _
      · split
        · exact Action.plain_done _
        · exact Action.plain_fail _

theorem plain_agree {a b : Value} (ha : ListsKnown Known a) (hb : ListsKnown Known b) :
    (a.agree b).Plain Known :=
  plain_agreeAt _ ha hb

theorem plain_keying :
    keying.Plain Known (ListsKnown Known) where
  hash := fun _ hkey => plain_hash hkey
  same := fun _ _ hstored hsought => plain_agree hstored hsought

theorem plain_agree_maps {l r : ValueMap} (hl : ListsKnown Known (map l))
    (hr : ListsKnown Known (map r)) :
    (l.agree keying agree r).Plain Known := by
  apply Dictionary.plain_agree plain_keying hl.keys hr.keys
  · intro d hd e he
    exact plain_agree (hl.values d hd) (hr.values e he)
  · intro d hd e he
    exact plain_agree (hr.values d hd) (hl.values e he)

theorem plain_same {a b : Value} (ha : ListsKnown Known a) (hb : ListsKnown Known b) :
    (a.same b).Plain Known :=
  (plain_agree ha hb).recover fun _ _ => Action.plain_done false

end Value

end ValueStore
