import ValueStore.Proofs.Value.Alike
import ValueStore.Proofs.Value.Built

/-!
# Hashes of equal values

Equal values have the same hash or are refused for the same reason. So a dictionary
that looks for a key in the bucket of its hash does not miss an equal one. Values that
have a hash are scalars and lists of such values, and any two of them can be compared.
-/

namespace ValueStore

namespace Value

/-! ## Equal values -/

theorem hash_eq_of_height {n : Nat} {a b : Value} (hn : a.height ≤ n)
    (ha : ListsKnown Sequence.Counted a) (hb : ListsKnown Sequence.Counted b) (h : a.Equals b) :
    a.hash.eval = b.hash.eval := by
  induction n generalizing a b with
  | zero =>
      exact absurd a.height_pos (Nat.not_lt.mpr hn)
  | succ n ih =>
      cases h.alike with
      | @list xs ys hagree =>
          have hall := (Sequence.agree_eq_true_iff agree ha.items hb.items).mp hagree
          rw [hash_list, hash_list, Sequence.length_eq_length_toList ha.items,
            Sequence.length_eq_length_toList hb.items, hall.length_eq]
          congr 1
          apply Action.mapM_congr
          refine Sequence.forall₂_of_agree ha.items hb.items ?_ hagree
          intro x hx y hy hxy
          have hxn := Nat.le_of_lt_succ ((height_lt_of_mem_list hx).trans_le hn)
          exact ih hxn (ha.element hx) (hb.element hy) hxy
      | float hequal =>
          rw [hash_eval, hash_eval]
          simp only [encoding, height, encodingAt, Binary64.normalizeZero_eq_of_equal hequal]
      | _ =>
          rfl

theorem Equals.hash_eq {a b : Value} (ha : ListsKnown Sequence.Counted a)
    (hb : ListsKnown Sequence.Counted b) (h : a.Equals b) :
    a.hash.eval = b.hash.eval :=
  hash_eq_of_height (Nat.le_refl a.height) ha hb h

/--
Either both of two equal values have a hash, which is the same, or neither has one; and neither
comparing nor hashing them depends on what cells keep that are faithful to the lists in them.
-/
theorem hash_of_agree {a b : Value} (ha : ListsKnown Sequence.Counted a)
    (hb : ListsKnown Sequence.Counted b) (hagree : (a.agree b).eval = .ok true) :
    (forall word, a.hash.eval = .ok word ↔ b.hash.eval = .ok word) ∧
      forall Known, ListsKnown Known a -> ListsKnown Known b ->
        (a.agree b).Plain Known ∧ a.hash.Plain Known ∧ b.hash.Plain Known := by
  have heq : a.hash.eval = b.hash.eval := Equals.hash_eq ha hb hagree
  constructor
  · intro word
    rw [heq]
  · intro Known haKnown hbKnown
    exact ⟨plain_agree haKnown hbKnown, plain_hash haKnown, plain_hash hbKnown⟩

def splitZero : Value :=
  ofChains 0 [float ⟨0⟩] [integer 7]

def appendedZero : Value :=
  ofChains 1 [] [integer 7, float ⟨0x8000000000000000⟩]

theorem built_splitZero :
    splitZero.Built :=
  built_ofChains 0 (List.forall_mem_singleton.mpr (Built.float ⟨0⟩))
    (List.forall_mem_singleton.mpr (Built.integer 7))

theorem built_appendedZero :
    appendedZero.Built := by
  apply built_ofChains 1 (List.forall_mem_nil _)
  exact List.forall_mem_cons.mpr ⟨Built.integer 7, List.forall_mem_singleton.mpr (Built.float _)⟩

theorem listsKnown_splitZero :
    ListsKnown (OfEither splitZero appendedZero) splitZero :=
  listsKnown_ofChains (Or.inl rfl) (List.forall_mem_singleton.mpr (listsKnown_float ⟨0⟩))
    (List.forall_mem_singleton.mpr (listsKnown_integer 7))

theorem listsKnown_appendedZero :
    ListsKnown (OfEither splitZero appendedZero) appendedZero :=
  listsKnown_ofChains (Or.inr rfl) (List.forall_mem_nil _)
    (List.forall_mem_cons.mpr
      ⟨listsKnown_integer 7, List.forall_mem_singleton.mpr (listsKnown_float _)⟩)

theorem faithful_empty_zeros :
    (Cells.empty : Cells Value).Faithful (OfEither splitZero appendedZero) :=
  faithful_empty_ofEither Nat.zero_ne_one

theorem hash_of_agree_signed_zeros :
    ListsKnown Sequence.Counted splitZero ∧ ListsKnown Sequence.Counted appendedZero ∧
      (splitZero.agree appendedZero).eval = .ok true ∧
      ((Cells.run splitZero.hash Cells.empty).1 = .ok 17772768029671279551 ↔
        (Cells.run appendedZero.hash Cells.empty).1 = .ok 17772768029671279551) := by
  have hsplit := built_splitZero.counted
  have happended := built_appendedZero.counted
  have hagree : (splitZero.agree appendedZero).eval = .ok true := by
    rfl
  rcases hash_of_agree hsplit happended hagree with ⟨hword, hplain⟩
  have hruns := hplain _ listsKnown_splitZero listsKnown_appendedZero
  refine ⟨hsplit, happended, hagree, ?_⟩
  rw [(hruns.2.1 _ faithful_empty_zeros).1, (hruns.2.2 _ faithful_empty_zeros).1]
  exact hword _

/-! ## Values that have a hash -/

theorem hashable_of_mem {items : Sequence Value} (hitems : keying.Hashable (list items))
    {v : Value} (hv : v ∈ items.toList) :
    keying.Hashable v := by
  rcases hitems with ⟨word, hword⟩
  have hlist : (hash (list items)).eval = .ok word := hword
  rw [hash_list] at hlist
  cases hhashes : (items.toList.mapM hash).eval with
  | error error =>
      rw [hhashes] at hlist
      cases hlist
  | ok hashes =>
      exact Action.mapM_answers hhashes v hv

theorem isHashable_of_hashable {v : Value} (hv : keying.Hashable v) :
    v.isHashable = true := by
  rcases hv with ⟨word, hword⟩
  cases v with
  | map m =>
      cases hword
  | function handle =>
      cases hword
  | channel handle =>
      cases hword
  | foreign handle =>
      cases hword
  | _ =>
      rfl

theorem isComparable_of_isHashable {v : Value} (hv : v.isHashable = true) :
    v.isComparable = true := by
  cases v with
  | function handle =>
      cases hv
  | channel handle =>
      cases hv
  | foreign handle =>
      cases hv
  | _ =>
      rfl

theorem agree_answers_of_height {n : Nat} {a b : Value} (hn : a.height ≤ n)
    (ha : keying.Hashable a) (hb : keying.Hashable b) :
    exists answer, (a.agree b).eval = .ok answer := by
  induction n generalizing a b with
  | zero =>
      exact absurd a.height_pos (Nat.not_lt.mpr hn)
  | succ n ih =>
      have haKind := isHashable_of_hashable ha
      have hbKind := isHashable_of_hashable hb
      have hstep := agree_eval a b
      unfold agreeAt at hstep
      dsimp only at hstep
      split at hstep
      · exact ⟨_, hstep⟩
      · exact ⟨_, hstep⟩
      · exact ⟨_, hstep⟩
      · exact ⟨_, hstep⟩
      · rw [agree_list]
        apply Sequence.agree_answers
        intro x hx y hy
        have hxn := Nat.le_of_lt_succ ((height_lt_of_mem_list hx).trans_le hn)
        exact ih hxn (hashable_of_mem ha hx) (hashable_of_mem hb hy)
      · cases haKind
      · cases haKind
      · rw [isComparable_of_isHashable haKind, isComparable_of_isHashable hbKind] at hstep
        exact ⟨false, hstep⟩

theorem agree_answers {a b : Value} (ha : keying.Hashable a) (hb : keying.Hashable b) :
    keying.Same a b ∨ keying.Differ a b := by
  rcases agree_answers_of_height (Nat.le_refl a.height) ha hb with ⟨answer, hanswer⟩
  cases answer with
  | true =>
      exact Or.inl hanswer
  | false =>
      exact Or.inr hanswer

end Value

end ValueStore
