import ValueStore.Proofs.Dictionary.Agreement
import ValueStore.Proofs.Sequence.Agreement
import ValueStore.Proofs.Value.Height
import ValueStore.Value.Equality

/-!
# Descending into values

Equality and encoding of values recurse on a bound. Any bound from the height on gives
the same answer, so both satisfy the equations one would write without a bound: lists
and maps are compared by the equality of values itself, and a list is encoded from the
hashes of its elements.
-/

namespace ValueStore

namespace Value

/-! ## Equality -/

theorem agree_list_congr {f g : Value -> Value -> Action Value Bool} {n : Nat}
    (heq : forall a b, a.height ≤ n -> b.height ≤ n -> (f a b).eval = (g a b).eval)
    {xs ys : Sequence Value} (hxs : (list xs).height ≤ n + 1) (hys : (list ys).height ≤ n + 1) :
    (xs.agree f ys).eval = (xs.agree g ys).eval := by
  apply Sequence.agree_congr
  intro x hx y hy
  apply heq
  · exact Nat.le_of_lt_succ ((height_lt_of_mem_list hx).trans_le hxs)
  · exact Nat.le_of_lt_succ ((height_lt_of_mem_list hy).trans_le hys)

theorem agreeAlike_of_height {f g : Value -> Value -> Action Value Bool} {n : Nat}
    (heq : forall a b, a.height ≤ n -> b.height ≤ n -> (f a b).eval = (g a b).eval)
    {l r : ValueMap} (hl : (map l).height ≤ n + 1) (hr : (map r).height ≤ n + 1) :
    Dictionary.AgreeAlike l r { hash := hash, same := f } { hash := hash, same := g } f g where
  hash := fun _ => rfl
  keys := by
    intro d hd e he
    apply heq
    · exact Nat.le_of_lt_succ ((key_height_lt_of_mem_map he).trans_le hr)
    · exact Nat.le_of_lt_succ ((key_height_lt_of_mem_map hd).trans_le hl)
  values := by
    intro d hd e he
    apply heq
    · exact Nat.le_of_lt_succ ((value_height_lt_of_mem_map hd).trans_le hl)
    · exact Nat.le_of_lt_succ ((value_height_lt_of_mem_map he).trans_le hr)

theorem agree_map_congr {f g : Value -> Value -> Action Value Bool} {n : Nat}
    (heq : forall a b, a.height ≤ n -> b.height ≤ n -> (f a b).eval = (g a b).eval)
    {l r : ValueMap} (hl : (map l).height ≤ n + 1) (hr : (map r).height ≤ n + 1) :
    (l.agree { hash := hash, same := f } f r).eval =
      (l.agree { hash := hash, same := g } g r).eval :=
  Dictionary.agree_congr (agreeAlike_of_height heq hl hr) (agreeAlike_of_height heq hr hl)

theorem agreeAt_eval_of_le {n bound : Nat} {a b : Value} (ha : a.height ≤ n)
    (hb : b.height ≤ n) (hbound : n ≤ bound) :
    (agreeAt bound a b).eval = (agreeAt n a b).eval := by
  induction n generalizing bound a b with
  | zero =>
      exact absurd a.height_pos (Nat.not_lt.mpr ha)
  | succ n ih =>
      rcases Nat.exists_eq_add_of_le' hbound with ⟨k, rfl⟩
      have hwider : forall a b : Value, a.height ≤ n -> b.height ≤ n ->
          (agreeAt (k + n) a b).eval = (agreeAt n a b).eval :=
        fun a b ha hb => ih ha hb (Nat.le_add_left n k)
      cases a with
      | list xs =>
          cases b with
          | list ys =>
              exact agree_list_congr hwider ha hb
          | _ =>
              rfl
      | map l =>
          cases b with
          | map r =>
              exact agree_map_congr hwider ha hb
          | _ =>
              rfl
      | _ =>
          cases b <;> rfl

/-- Any bound from the heights on decides equality. -/
theorem agreeAt_eval {bound : Nat} {a b : Value} (ha : a.height ≤ bound)
    (hb : b.height ≤ bound) :
    (agreeAt bound a b).eval = (agree a b).eval :=
  agreeAt_eval_of_le (Nat.le_max_left _ _) (Nat.le_max_right _ _) (Nat.max_le.mpr ⟨ha, hb⟩)

theorem agree_eval (a b : Value) :
    (agree a b).eval = (agreeAt (max a.height b.height + 1) a b).eval :=
  (agreeAt_eval (Nat.le_succ_of_le (Nat.le_max_left _ _))
    (Nat.le_succ_of_le (Nat.le_max_right _ _))).symm

theorem agree_list (xs ys : Sequence Value) :
    (agree (list xs) (list ys)).eval = (xs.agree agree ys).eval := by
  rw [agree_eval]
  exact agree_list_congr (fun _ _ => agreeAt_eval) (Nat.le_succ_of_le (Nat.le_max_left _ _))
    (Nat.le_succ_of_le (Nat.le_max_right _ _))

theorem agree_map (l r : ValueMap) :
    (agree (map l) (map r)).eval = (l.agree keying agree r).eval := by
  rw [agree_eval]
  exact agree_map_congr (fun _ _ => agreeAt_eval) (Nat.le_succ_of_le (Nat.le_max_left _ _))
    (Nat.le_succ_of_le (Nat.le_max_right _ _))

/-! ## Encoding -/

theorem hash_eval (v : Value) :
    v.hash.eval = v.encoding.eval.map Fnv.hash :=
  Action.eval_bind_pure _ _

theorem encodingAt_list (bound : Nat) (items : Sequence Value) :
    (encodingAt (bound + 1) (list items)).eval =
      (items.toList.mapM fun v => do return Fnv.hash (← encodingAt bound v)).eval.map
        fun hashes : List UInt64 =>
          4 :: (Bytes.ofLength items.length ++ hashes.flatMap Bytes.ofWord) :=
  Action.eval_bind_pure _ _

theorem encodingAt_eval_of_le {n bound : Nat} {v : Value} (hv : v.height ≤ n)
    (hbound : n ≤ bound) :
    (encodingAt bound v).eval = (encodingAt n v).eval := by
  induction n generalizing bound v with
  | zero =>
      exact absurd v.height_pos (Nat.not_lt.mpr hv)
  | succ n ih =>
      rcases Nat.exists_eq_add_of_le' hbound with ⟨k, rfl⟩
      cases v with
      | list items =>
          show (encodingAt (k + n + 1) (list items)).eval = _
          rw [encodingAt_list, encodingAt_list]
          congr 1
          apply Action.mapM_congr
          rw [List.forall₂_same]
          intro w hw
          have hwn := Nat.le_of_lt_succ ((height_lt_of_mem_list hw).trans_le hv)
          rw [Action.eval_bind_pure, Action.eval_bind_pure, ih hwn (Nat.le_add_left n k)]
      | _ =>
          rfl

theorem encoding_list (items : Sequence Value) :
    (encoding (list items)).eval =
      (items.toList.mapM hash).eval.map fun hashes : List UInt64 =>
        4 :: (Bytes.ofLength items.length ++ hashes.flatMap Bytes.ofWord) := by
  have hwider := encodingAt_eval_of_le (Nat.le_refl (list items).height) (Nat.le_succ _)
  have helements : (items.toList.mapM fun v => do
        return Fnv.hash (← encodingAt (list items).height v)).eval =
      (items.toList.mapM hash).eval := by
    apply Action.mapM_congr
    rw [List.forall₂_same]
    intro v hv
    rw [Action.eval_bind_pure, hash_eval]
    congr 1
    exact encodingAt_eval_of_le (Nat.le_refl _) (Nat.le_of_lt (height_lt_of_mem_list hv))
  rw [encoding, ← hwider, encodingAt_list, helements]

theorem hash_list (items : Sequence Value) :
    (hash (list items)).eval =
      (items.toList.mapM hash).eval.map fun hashes : List UInt64 =>
        Fnv.hash (4 :: (Bytes.ofLength items.length ++ hashes.flatMap Bytes.ofWord)) := by
  rw [hash_eval, encoding_list]
  cases (items.toList.mapM hash).eval <;> rfl

end Value

end ValueStore
