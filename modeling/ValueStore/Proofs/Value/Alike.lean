import ValueStore.Proofs.Number.Binary64
import ValueStore.Proofs.Value.Descent

/-!
# Equal values

What two equal values look like: they are of one kind, and their contents agree. The
many ways in which values can differ or be refused end here.
-/

namespace ValueStore

theorem Handle.eq_of_fields {g h : Handle} (hg : g.comparable = true) (hh : h.comparable = true)
    (hfields : (g.typeName == h.typeName && g.identity == h.identity) = true) :
    g = h := by
  rcases g with ⟨typeName, identity, comparable⟩
  rcases h with ⟨typeName', identity', comparable'⟩
  rw [Bool.and_eq_true, beq_iff_eq, beq_iff_eq] at hfields
  rw [Handle.mk.injEq]
  exact ⟨hfields.1, hfields.2, hg.trans hh.symm⟩

namespace Value

def Equals (a b : Value) : Prop :=
  (a.agree b).eval = .ok true

/-! ## What equal values look like -/

inductive Alike : Value -> Value -> Prop where
  | integer (n : Int64) : Alike (integer n) (integer n)
  | float {x y : Binary64} : x.equal y = true -> Alike (float x) (float y)
  | string (s : String) : Alike (string s) (string s)
  | boolean (b : Bool) : Alike (boolean b) (boolean b)
  | list {xs ys : Sequence Value} :
      (xs.agree agree ys).eval = .ok true -> Alike (list xs) (list ys)
  | map {l r : ValueMap} : (l.agree keying agree r).eval = .ok true -> Alike (map l) (map r)
  | foreign {handle : Handle} :
      handle.comparable = true -> Alike (foreign handle) (foreign handle)

theorem eval_differ_ne_true (comparable : Bool) (error : Error) :
    (if comparable then return false else Action.fail error : Action Value Bool).eval ≠
      .ok true := by
  intro h
  cases comparable <;> cases h

theorem Equals.alike {a b : Value} (h : a.Equals b) :
    a.Alike b := by
  have hstep := (agree_eval a b).symm.trans h
  unfold agreeAt at hstep
  dsimp only at hstep
  split at hstep
  · cases eq_of_beq (Except.ok.inj hstep)
    exact Alike.integer _
  · exact Alike.float (Except.ok.inj hstep)
  · cases eq_of_beq (Except.ok.inj hstep)
    exact Alike.string _
  · cases eq_of_beq (Except.ok.inj hstep)
    exact Alike.boolean _
  · exact Alike.list ((agree_list _ _).symm.trans h)
  · exact Alike.map ((agree_map _ _).symm.trans h)
  · rename_i handle handle'
    by_cases hcomparable : (handle.comparable && handle'.comparable) = true
    · rw [if_pos hcomparable] at hstep
      have hfields := Except.ok.inj hstep
      rw [Bool.and_eq_true] at hcomparable
      rw [Handle.eq_of_fields hcomparable.1 hcomparable.2 hfields]
      exact Alike.foreign hcomparable.2
    · rw [if_neg hcomparable] at hstep
      exact (eval_differ_ne_true _ _ hstep).elim
  · exact (eval_differ_ne_true _ _ hstep).elim

theorem Alike.equals {a b : Value} (h : a.Alike b) :
    a.Equals b := by
  unfold Equals
  rw [agree_eval]
  cases h with
  | integer n =>
      exact congrArg Except.ok (beq_self_eq_true n)
  | float hequal =>
      exact congrArg Except.ok hequal
  | string s =>
      exact congrArg Except.ok (beq_self_eq_true s)
  | boolean b =>
      exact congrArg Except.ok (beq_self_eq_true b)
  | list hagree =>
      rw [← agree_eval, agree_list]
      exact hagree
  | map hagree =>
      rw [← agree_eval, agree_map]
      exact hagree
  | foreign hcomparable =>
      simp [agreeAt, hcomparable]

end Value

end ValueStore
