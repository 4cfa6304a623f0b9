import ValueStore.Proofs.Hash.Bytes
import ValueStore.Proofs.Value.Hash

/-!
# Values written as the same bytes

The bytes from which a value is hashed begin with a byte for its kind, and what follows
has a fixed width or begins with its length. So the contents can be told from the bytes,
up to the sign of a zero and, in a list, up to elements with the same hash. Values that
are written as the same bytes without being equal are therefore the same NaN, or lists.
-/

namespace ValueStore

namespace Value

/-- The bytes that stand for a value, if it has a hash. -/
inductive WrittenAs : Value -> List UInt8 -> Prop where
  | integer (n : Int64) : WrittenAs (integer n) (0 :: Bytes.ofInt64 n)
  | float (x : Binary64) : WrittenAs (float x) (1 :: Bytes.ofWord x.normalizeZero.bits)
  | string (s : String) :
      WrittenAs (string s) (2 :: (Bytes.ofLength (Bytes.utf8 s).length ++ Bytes.utf8 s))
  | boolean (b : Bool) : WrittenAs (boolean b) (3 :: Bytes.ofBool b)
  | list {items : Sequence Value} {hashes : List UInt64} :
      (items.toList.mapM hash).eval = .ok hashes ->
      WrittenAs (list items) (4 :: (Bytes.ofLength items.length ++ hashes.flatMap Bytes.ofWord))

theorem writtenAs_of_encoding {v : Value} {bytes : List UInt8}
    (hbytes : v.encoding.eval = .ok bytes) :
    WrittenAs v bytes := by
  cases v with
  | integer n =>
      cases hbytes
      exact WrittenAs.integer n
  | float x =>
      cases hbytes
      exact WrittenAs.float x
  | string s =>
      cases hbytes
      exact WrittenAs.string s
  | boolean b =>
      cases hbytes
      exact WrittenAs.boolean b
  | list items =>
      rw [encoding_list] at hbytes
      cases hhashes : (items.toList.mapM hash).eval with
      | error error =>
          rw [hhashes] at hbytes
          cases hbytes
      | ok hashes =>
          rw [hhashes] at hbytes
          cases hbytes
          exact WrittenAs.list hhashes
  | _ =>
      cases hbytes

theorem exists_encoding {v : Value} (hv : keying.Hashable v) :
    exists bytes, v.encoding.eval = .ok bytes ∧ v.hash.eval = .ok (Fnv.hash bytes) := by
  rcases hv with ⟨word, hword⟩
  have hhash : v.hash.eval = .ok word := hword
  rw [hash_eval] at hhash ⊢
  cases hbytes : v.encoding.eval with
  | error error =>
      rw [hbytes] at hhash
      cases hhash
  | ok bytes =>
      exact ⟨bytes, rfl, rfl⟩

/--
Two scalars with the same contents, but for the sign of a zero, or two lists whose elements have
the same hashes one by one.
-/
inductive Indistinct : Value -> Value -> Prop where
  | integer (n : Int64) : Indistinct (integer n) (integer n)
  | float {x y : Binary64} :
      x.normalizeZero.bits = y.normalizeZero.bits -> Indistinct (float x) (float y)
  | string {s t : String} : Bytes.utf8 s = Bytes.utf8 t -> Indistinct (string s) (string t)
  | boolean (b : Bool) : Indistinct (boolean b) (boolean b)
  | list {xs ys : Sequence Value} :
      List.Forall₂ (fun v w => v.hash.eval = w.hash.eval) xs.toList ys.toList ->
      Indistinct (list xs) (list ys)

/-! ## What can be told from the bytes -/

theorem WrittenAs.indistinct {a b : Value} {bytes bytes' : List UInt8} (ha : WrittenAs a bytes)
    (hb : WrittenAs b bytes') (heq : bytes = bytes') :
    Indistinct a b := by
  cases ha with
  | integer m =>
      cases hb with
      | integer n =>
          rw [Bytes.ofInt64_inj (List.cons.inj heq).2]
          exact Indistinct.integer n
      | _ =>
          exact absurd (List.cons.inj heq).1 (by decide)
  | float x =>
      cases hb with
      | float y =>
          exact Indistinct.float (Bytes.ofWord_inj (List.cons.inj heq).2)
      | _ =>
          exact absurd (List.cons.inj heq).1 (by decide)
  | string s =>
      cases hb with
      | string t =>
          have hparts := List.append_inj (List.cons.inj heq).2 rfl
          exact Indistinct.string hparts.2
      | _ =>
          exact absurd (List.cons.inj heq).1 (by decide)
  | boolean b =>
      cases hb with
      | boolean b' =>
          rw [Bytes.ofBool_inj (List.cons.inj heq).2]
          exact Indistinct.boolean b'
      | _ =>
          exact absurd (List.cons.inj heq).1 (by decide)
  | @list xs hashes hxs =>
      cases hb with
      | @list ys hashes' hys =>
          have hparts := List.append_inj (List.cons.inj heq).2 rfl
          rw [← Bytes.flatMap_ofWord_inj hparts.2] at hys
          exact Indistinct.list (Action.forall₂_of_mapM_eq hxs hys)
      | _ =>
          exact absurd (List.cons.inj heq).1 (by decide)

theorem Indistinct.encoding_eq {a b : Value} (ha : ListsKnown Sequence.Counted a)
    (hb : ListsKnown Sequence.Counted b) (h : Indistinct a b) :
    a.encoding.eval = b.encoding.eval := by
  cases h with
  | integer n =>
      rfl
  | @float x y hbits =>
      have hzero : x.normalizeZero = y.normalizeZero := congrArg Binary64.mk hbits
      simp only [encoding, height, encodingAt, hzero]
  | string hbytes =>
      rw [Bytes.utf8_inj hbytes]
  | boolean b =>
      rfl
  | @list xs ys hhashes =>
      rw [encoding_list, encoding_list, Action.mapM_congr hhashes,
        Sequence.length_eq_length_toList ha.items, Sequence.length_eq_length_toList hb.items,
        hhashes.length_eq]

/-! ## Values without lists -/

def ListFree (v : Value) : Prop :=
  forall items, ¬(list items).Within v

theorem Indistinct.typeName_eq {a b : Value} (h : Indistinct a b) :
    a.typeName = b.typeName := by
  cases h <;> rfl

theorem agree_or_nan_of_indistinct {a b : Value} (h : Indistinct a b) (ha : a.ListFree) :
    (a.agree b).eval = .ok true ∨ exists x, x.isNaN = true ∧ a = float x ∧ b = float x := by
  cases h with
  | integer n =>
      exact Or.inl (Alike.integer n).equals
  | @float x y hbits =>
      have hzero : x.normalizeZero = y.normalizeZero := congrArg Binary64.mk hbits
      rcases Binary64.normalizeZero_eq_iff.mp hzero with hequal | ⟨rfl, hnan⟩
      · exact Or.inl (Alike.float hequal).equals
      · exact Or.inr ⟨x, hnan, rfl, rfl⟩
  | @string s t hbytes =>
      rw [Bytes.utf8_inj hbytes]
      exact Or.inl (Alike.string t).equals
  | boolean b =>
      exact Or.inl (Alike.boolean b).equals
  | list _hhashes =>
      exact absurd Within.self (ha _)

theorem indistinct_of_agree {a b : Value} (hagree : (a.agree b).eval = .ok true)
    (hashable : keying.Hashable a) (ha : a.ListFree) :
    Indistinct a b := by
  have hkind := isHashable_of_hashable hashable
  cases Equals.alike hagree with
  | integer n =>
      exact Indistinct.integer n
  | float hequal =>
      exact Indistinct.float (congrArg Binary64.bits (Binary64.normalizeZero_eq_of_equal hequal))
  | string s =>
      exact Indistinct.string rfl
  | boolean b =>
      exact Indistinct.boolean b
  | list _hagree =>
      exact absurd Within.self (ha _)
  | map _hagree =>
      cases hkind
  | foreign _hcomparable =>
      cases hkind

/--
Two values that have a hash are written as the same bytes exactly if they are of one kind and have
the same contents, but for the sign of a zero, or are lists whose elements have the same hashes one
by one. Without lists in them this means that they are equal or the same NaN. None of this depends
on what cells keep that are faithful to the lists in the values.
-/
theorem encoding_eq_iff_indistinct {a b : Value} (ha : keying.Hashable a)
    (hb : keying.Hashable b) (haCounted : ListsKnown Sequence.Counted a)
    (hbCounted : ListsKnown Sequence.Counted b) :
    exists bytes bytes', a.encoding.eval = .ok bytes ∧ b.encoding.eval = .ok bytes' ∧
      a.hash.eval = .ok (Fnv.hash bytes) ∧ b.hash.eval = .ok (Fnv.hash bytes') ∧
      (bytes = bytes' ↔ Indistinct a b) ∧
      (bytes = bytes' -> a.typeName = b.typeName) ∧
      (a.ListFree -> (bytes = bytes' ↔
        (a.agree b).eval = .ok true ∨ exists x, x.isNaN = true ∧ a = float x ∧ b = float x)) ∧
      forall Known, ListsKnown Known a -> ListsKnown Known b ->
        a.encoding.Plain Known ∧ b.encoding.Plain Known := by
  rcases exists_encoding ha with ⟨bytes, hbytes, hhash⟩
  rcases exists_encoding hb with ⟨bytes', hbytes', hhash'⟩
  have hiff : bytes = bytes' ↔ Indistinct a b := by
    constructor
    · exact (writtenAs_of_encoding hbytes).indistinct (writtenAs_of_encoding hbytes')
    · intro h
      have heq := h.encoding_eq haCounted hbCounted
      rw [hbytes, hbytes'] at heq
      exact Except.ok.inj heq
  refine ⟨bytes, bytes', hbytes, hbytes', hhash, hhash', hiff, ?_, ?_, ?_⟩
  · exact fun heq => (hiff.mp heq).typeName_eq
  · intro hfree
    rw [hiff]
    constructor
    · exact fun h => agree_or_nan_of_indistinct h hfree
    · intro h
      rcases h with hagree | ⟨x, _hnan, rfl, rfl⟩
      · exact indistinct_of_agree hagree ha hfree
      · exact Indistinct.float rfl
  · exact fun _ haKnown hbKnown => ⟨plain_encodingAt _ haKnown, plain_encodingAt _ hbKnown⟩

def quietNaN : Binary64 := ⟨0x7ff8000000000000⟩

/--
The two zeros do not show in the bytes of a list, and a NaN is written as itself though it does not
equal itself.
-/
theorem encoding_eq_iff_indistinct_zeros_and_nan :
    (exists bytes, splitZero.encoding.eval = .ok bytes ∧ appendedZero.encoding.eval = .ok bytes ∧
      (Cells.run appendedZero.encoding Cells.empty).1 = .ok bytes) ∧
      (exists bytes, (float quietNaN).encoding.eval = .ok bytes ∧
        (float quietNaN).hash.eval = .ok (Fnv.hash bytes)) ∧
      ((float quietNaN).agree (float quietNaN)).eval = .ok false ∧
      exists x, x.isNaN = true ∧ float quietNaN = float x ∧ float quietNaN = float x := by
  have hindistinct : Indistinct splitZero appendedZero := by
    refine Indistinct.list (List.Forall₂.cons ?_ (List.Forall₂.cons rfl List.Forall₂.nil))
    rfl
  have hfree : (float quietNaN).ListFree :=
    nofun
  rcases encoding_eq_iff_indistinct ⟨_, rfl⟩ ⟨_, rfl⟩ built_splitZero.counted
      built_appendedZero.counted with
    ⟨bytes, bytes', hbytes, hbytes', _hhash, _hhash', hiff, _hkinds, _hfree, hplain⟩
  have heq := hiff.mpr hindistinct
  have hruns := hplain _ listsKnown_splitZero listsKnown_appendedZero
  rcases encoding_eq_iff_indistinct (a := float quietNaN) (b := float quietNaN) ⟨_, rfl⟩ ⟨_, rfl⟩
      (listsKnown_float quietNaN) (listsKnown_float quietNaN) with
    ⟨nan, nan', hnan, hnan', hhash, _hhash', _hiff, _hkinds, hnanIff, _hplain⟩
  refine ⟨⟨bytes, hbytes, heq ▸ hbytes', ?_⟩, ⟨nan, hnan, hhash⟩, rfl, ?_⟩
  · rw [(hruns.2 _ faithful_empty_zeros).1, hbytes', heq]
  · have hsame := Except.ok.inj (hnan.symm.trans hnan')
    rcases (hnanIff hfree).mp hsame with hagree | hexists
    · cases hagree
    · exact hexists

end Value

end ValueStore
