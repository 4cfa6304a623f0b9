import ValueStore.Proofs.Value.Hash

/-!
# Equality of values is a partial equivalence

Equality of built values is symmetric and transitive, and the values that equal
themselves are known exactly. To compare two maps is to look keys up, so for maps
equality of the keys has to be lawful already. Keys are less high than the map, which
makes the height the thing to go by induction on.
-/

namespace ValueStore

namespace Value

structure PartialEquivalenceOn (Known : Value -> Prop) : Prop where
  symm : forall a b, Known a -> Known b -> a.Equals b -> b.Equals a
  trans : forall a b c, Known a -> Known b -> Known c ->
    a.Equals b -> b.Equals c -> a.Equals c

theorem PartialEquivalenceOn.lawful {Known : Value -> Prop} (h : PartialEquivalenceOn Known)
    (hbuilt : forall v, Known v -> v.Built) :
    keying.Lawful fun v => Known v ∧ keying.Hashable v where
  answers := fun _ _ ha hb => agree_answers ha.2 hb.2
  symm := fun a b ha hb hab => h.symm a b ha.1 hb.1 hab
  trans := fun a b c ha hb hc hab hbc => h.trans a b c ha.1 hb.1 hc.1 hab hbc
  hash_eq := fun a b ha hb hab =>
    Equals.hash_eq (hbuilt a ha.1).counted (hbuilt b hb.1).counted hab

/-! ## Induction on the height -/

structure BuiltTo (n : Nat) (v : Value) : Prop where
  built : v.Built
  height : v.height ≤ n

theorem BuiltTo.counted {n : Nat} {items : Sequence Value} (h : BuiltTo n (list items)) :
    items.Counted := by
  cases h.built with
  | list hcounted _helements =>
      exact hcounted

theorem BuiltTo.element {n : Nat} {items : Sequence Value} (h : BuiltTo (n + 1) (list items))
    {v : Value} (hv : v ∈ items.toList) :
    BuiltTo n v := by
  cases h.built with
  | list _hcounted helements =>
      exact ⟨helements v hv, Nat.le_of_lt_succ ((height_lt_of_mem_list hv).trans_le h.height)⟩

theorem BuiltTo.sound {n : Nat} {m : ValueMap} (h : BuiltTo n (map m)) :
    m.Sound keying := by
  cases h.built with
  | map hreachable _hkeys _hvalues =>
      exact hreachable.sound

theorem BuiltTo.keys {n : Nat} {m : ValueMap} (h : BuiltTo (n + 1) (map m)) :
    m.KeysKnown fun v => BuiltTo n v ∧ keying.Hashable v := by
  intro entry hentry
  cases h.built with
  | map hreachable hkeys _hvalues =>
      have hlt := key_height_lt_of_mem_map hentry
      exact ⟨⟨hkeys entry hentry, Nat.le_of_lt_succ (hlt.trans_le h.height)⟩,
        hreachable.sound.keysHashable entry hentry⟩

theorem BuiltTo.values {n : Nat} {m : ValueMap} (h : BuiltTo (n + 1) (map m)) :
    m.ValuesKnown (BuiltTo n) := by
  intro entry hentry
  cases h.built with
  | map _hreachable _hkeys hvalues =>
      have hlt := value_height_lt_of_mem_map hentry
      exact ⟨hvalues entry hentry, Nat.le_of_lt_succ (hlt.trans_le h.height)⟩

theorem symm_step {n : Nat} (h : PartialEquivalenceOn (BuiltTo n)) {a b : Value}
    (ha : BuiltTo (n + 1) a) (hb : BuiltTo (n + 1) b) (hab : a.Equals b) :
    b.Equals a := by
  cases hab.alike with
  | float hequal =>
      exact (Alike.float (Binary64.equal_symm hequal)).equals
  | list hagree =>
      refine (Alike.list (Sequence.agree_symm ha.counted hb.counted ?_ hagree)).equals
      intro x hx y hy
      exact h.symm x y (ha.element hx) (hb.element hy)
  | map hagree =>
      have hlawful := h.lawful fun _ hv => hv.built
      exact (Alike.map (ha.sound.agree_symm hb.sound hlawful ha.keys hb.keys hagree)).equals
  | _ =>
      exact hab

theorem trans_step {n : Nat} (h : PartialEquivalenceOn (BuiltTo n)) {a b c : Value}
    (ha : BuiltTo (n + 1) a) (hb : BuiltTo (n + 1) b) (hc : BuiltTo (n + 1) c)
    (hab : a.Equals b) (hbc : b.Equals c) :
    a.Equals c := by
  cases hab.alike with
  | float hequal =>
      cases hbc.alike with
      | float hequal' =>
          exact (Alike.float (Binary64.equal_trans hequal hequal')).equals
  | list hagree =>
      cases hbc.alike with
      | list hagree' =>
          refine (Alike.list
            (Sequence.agree_trans ha.counted hb.counted hc.counted ?_ hagree hagree')).equals
          intro x hx y hy z hz
          exact h.trans x y z (ha.element hx) (hb.element hy) (hc.element hz)
  | map hagree =>
      cases hbc.alike with
      | map hagree' =>
          have hlawful := h.lawful fun _ hv => hv.built
          exact (Alike.map (ha.sound.agree_trans hb.sound hc.sound hlawful ha.keys hb.keys
            hc.keys ha.values hb.values hc.values h.trans hagree hagree')).equals
  | _ =>
      exact hbc

theorem partialEquivalence_builtTo (n : Nat) :
    PartialEquivalenceOn (BuiltTo n) := by
  induction n with
  | zero =>
      constructor
      · intro a b ha
        exact absurd a.height_pos (Nat.not_lt.mpr ha.height)
      · intro a b c ha
        exact absurd a.height_pos (Nat.not_lt.mpr ha.height)
  | succ n ih =>
      constructor
      · intro a b ha hb hab
        exact symm_step ih ha hb hab
      · intro a b c ha hb hc hab hbc
        exact trans_step ih ha hb hc hab hbc

theorem partialEquivalence_built :
    PartialEquivalenceOn Built := by
  constructor
  · intro a b ha hb hab
    have h := partialEquivalence_builtTo (max a.height b.height)
    exact h.symm a b ⟨ha, Nat.le_max_left _ _⟩ ⟨hb, Nat.le_max_right _ _⟩ hab
  · intro a b c ha hb hc hab hbc
    have h := partialEquivalence_builtTo (max a.height (max b.height c.height))
    exact h.trans a b c ⟨ha, Nat.le_max_left _ _⟩
      ⟨hb, (Nat.le_max_left _ _).trans (Nat.le_max_right _ _)⟩
      ⟨hc, (Nat.le_max_right _ _).trans (Nat.le_max_right _ _)⟩ hab hbc

theorem lawful_built :
    keying.Lawful fun v => v.Built ∧ keying.Hashable v :=
  partialEquivalence_built.lawful fun _ hv => hv

end Value

end ValueStore
