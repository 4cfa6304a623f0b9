import ValueStore.Proofs.Hash.Fnv
import ValueStore.Proofs.Value.Comparison

/-!
# Keys that differ in one byte

Integers and strings of one length that differ in one byte, and the two booleans, are
written as byte strings that differ in one position. So they have different hashes, and
no map keeps two of them at one node, under any policy and after any run of requests.
-/

namespace ValueStore

namespace Value

/-- Two integers, two booleans or two strings of one length that differ in one byte. -/
inductive OneByteApart : Value -> Value -> Prop where
  | integer {m n : Int64} :
      Bytes.DifferOnce (Bytes.ofInt64 m) (Bytes.ofInt64 n) ->
      OneByteApart (integer m) (integer n)
  | boolean {a b : Bool} : a ≠ b -> OneByteApart (boolean a) (boolean b)
  | string {s t : String} :
      Bytes.DifferOnce (Bytes.utf8 s) (Bytes.utf8 t) -> OneByteApart (string s) (string t)

theorem OneByteApart.hashed {a b : Value} (h : OneByteApart a b) :
    exists bytes bytes', a.hash.eval = .ok (Fnv.hash bytes) ∧
      b.hash.eval = .ok (Fnv.hash bytes') ∧ Bytes.DifferOnce bytes bytes' := by
  cases h with
  | integer hdiffer =>
      exact ⟨_, _, rfl, rfl, hdiffer.append [0]⟩
  | boolean hne =>
      exact ⟨_, _, rfl, rfl, (Bytes.differOnce_ofBool hne).append [3]⟩
  | @string s t hdiffer =>
      -- the lengths are written first, and they are the same
      have hbytes := hdiffer.append (2 :: Bytes.ofLength (Bytes.utf8 s).length)
      refine ⟨_, _, rfl, rfl, ?_⟩
      rw [← hdiffer.1]
      exact hbytes

theorem OneByteApart.placed_apart {a b : Value} (h : OneByteApart a b) :
    exists i j, keying.PlacedAt i a ∧ keying.PlacedAt j b ∧ i ≠ j := by
  rcases h.hashed with ⟨bytes, bytes', hhash, hhash', hdiffer⟩
  refine ⟨_, _, Keying.placedAt_of_hash hhash, Keying.placedAt_of_hash hhash', ?_⟩
  intro heq
  exact Fnv.start.absorb_ne_of_differOnce hdiffer
    (congrArg Fnv.mk (Dictionary.word_eq_of_toInt64_eq heq))

theorem OneByteApart.listsKnown {a b : Value} (h : OneByteApart a b)
    (Known : Sequence Value -> Prop) :
    ListsKnown Known a ∧ ListsKnown Known b := by
  cases h with
  | integer _hdiffer =>
      exact ⟨nofun, nofun⟩
  | boolean _hne =>
      exact ⟨nofun, nofun⟩
  | string _hdiffer =>
      exact ⟨nofun, nofun⟩

/--
Taking in two byte strings of one length that differ in one position takes every state of the hash
to different states. So two integers or strings of one length that differ in one byte, and the two
booleans, have different tree keys, whatever cells keep, and no map that can be reached stores both
at one node.
-/
theorem one_byte_keeps_apart :
    (forall (h : Fnv) (xs ys : List UInt8), Bytes.DifferOnce xs ys ->
        (h.absorb xs).state ≠ (h.absorb ys).state) ∧
      forall a b : Value, OneByteApart a b ->
        (exists i j, keying.PlacedAt i a ∧ keying.PlacedAt j b ∧ i ≠ j) ∧
        (forall m : ValueMap, m.Reachable keying -> forall node, node ∈ m.index.toList ->
          ¬(a ∈ node.2.storedKeys ∧ b ∈ node.2.storedKeys)) ∧
        forall Known, (keying.nodeKey a).Plain Known ∧ (keying.nodeKey b).Plain Known := by
  constructor
  · intro h xs ys hdiffer hstate
    exact h.absorb_ne_of_differOnce hdiffer (congrArg Fnv.mk hstate)
  · intro a b hapart
    refine ⟨hapart.placed_apart, ?_, ?_⟩
    · intro m hm node hnode hstored
      rcases hapart.placed_apart with ⟨i, j, hi, hj, hne⟩
      exact hne (hm.sound.placed_together hnode hstored.1 hstored.2 hi hj)
    · intro Known
      rcases hapart.listsKnown Known with ⟨ha, hb⟩
      exact ⟨plain_keying.nodeKey ha, plain_keying.nodeKey hb⟩

/--
The middle one of three bytes decides between two states, one and two share no node of a map that
has both of them, and neither do the booleans and two words at any map.
-/
theorem one_byte_keeps_apart_in_zeroThenOne :
    ((⟨7⟩ : Fnv).absorb [1, 2, 3]).state ≠ ((⟨7⟩ : Fnv).absorb [1, 5, 3]).state ∧
      zeroThenOne.Reachable keying ∧ OneByteApart (integer 1) (integer 2) ∧
      (forall node, node ∈ zeroThenOne.index.toList ->
        ¬(integer 1 ∈ node.2.storedKeys ∧ integer 2 ∈ node.2.storedKeys)) ∧
      (exists i j, keying.PlacedAt i (boolean false) ∧ keying.PlacedAt j (boolean true) ∧
        i ≠ j) ∧
      exists i j, keying.PlacedAt i (string "warp") ∧ keying.PlacedAt j (string "wasp") ∧
        i ≠ j := by
  rcases one_byte_keeps_apart with ⟨hstates, hkeys⟩
  have hreachable : zeroThenOne.Reachable keying := built_zeroThenOne.reachable
  have hintegers : OneByteApart (integer 1) (integer 2) :=
    OneByteApart.integer (by decide)
  have hbooleans : OneByteApart (boolean false) (boolean true) :=
    OneByteApart.boolean Bool.false_ne_true
  have hstrings : OneByteApart (string "warp") (string "wasp") :=
    OneByteApart.string (by decide)
  exact ⟨hstates ⟨7⟩ _ _ (by decide), hreachable, hintegers,
    (hkeys _ _ hintegers).2.1 _ hreachable, (hkeys _ _ hbooleans).1, (hkeys _ _ hstrings).1⟩

end Value

end ValueStore
