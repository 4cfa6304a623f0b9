import Mathlib.Algebra.Ring.Nat
import ValueStore.Hash.Bytes

/-!
# Words, text and byte strings

A word can be told from its eight bytes, and text from its UTF-8 bytes. Since all words
take up equally many bytes, a row of words can be told from theirs. Two byte strings that
differ in exactly one position are the same before it and after it.
-/

namespace ValueStore

namespace Bytes

/-! ## Words and text -/

theorem length_littleEndian (width n : Nat) :
    (littleEndian width n).length = width := by
  induction width generalizing n with
  | zero =>
      rfl
  | succ width ih =>
      exact congrArg Nat.succ (ih (n / 256))

theorem littleEndian_inj {width m n : Nat} (hm : m < 256 ^ width) (hn : n < 256 ^ width)
    (heq : littleEndian width m = littleEndian width n) :
    m = n := by
  induction width generalizing m n with
  | zero =>
      omega
  | succ width ih =>
      rw [Nat.pow_succ'] at hm hn
      rw [littleEndian, littleEndian, List.cons.injEq] at heq
      have hlow : m % 256 = n % 256 := by
        have hbyte := congrArg UInt8.toNat heq.1
        simpa using hbyte
      have hhigh := ih (Nat.div_lt_of_lt_mul hm) (Nat.div_lt_of_lt_mul hn) heq.2
      omega

theorem length_ofWord (w : UInt64) :
    (ofWord w).length = 8 :=
  length_littleEndian 8 w.toNat

theorem ofWord_inj {v w : UInt64} (heq : ofWord v = ofWord w) :
    v = w :=
  UInt64.toNat_inj.mp (littleEndian_inj v.toNat_lt w.toNat_lt heq)

theorem ofInt64_inj {m n : Int64} (heq : ofInt64 m = ofInt64 n) :
    m = n :=
  congrArg UInt64.toInt64 (ofWord_inj heq)

theorem flatMap_ofWord_inj {vs ws : List UInt64} (heq : vs.flatMap ofWord = ws.flatMap ofWord) :
    vs = ws := by
  induction vs generalizing ws with
  | nil =>
      cases ws with
      | nil =>
          rfl
      | cons w ws =>
          cases heq
  | cons v vs ih =>
      cases ws with
      | nil =>
          cases heq
      | cons w ws =>
          rw [List.flatMap_cons, List.flatMap_cons] at heq
          have hlength := (length_ofWord v).trans (length_ofWord w).symm
          rcases List.append_inj heq hlength with ⟨hword, hrest⟩
          rw [ofWord_inj hword, ih hrest]

theorem ofBool_inj {a b : Bool} (heq : ofBool a = ofBool b) :
    a = b := by
  cases a <;> cases b
  · rfl
  · cases heq
  · cases heq
  · rfl

theorem utf8_inj {s t : String} (heq : utf8 s = utf8 t) :
    s = t :=
  String.toByteArray_inj.mp (ByteArray.ext (Array.toList_inj.mp heq))

/-! ## One position -/

/-- Two byte strings of one length that differ in exactly one position. -/
def DifferOnce (xs ys : List UInt8) : Prop :=
  xs.length = ys.length ∧ (xs.zip ys).countP (fun pair => pair.1 != pair.2) = 1

instance (xs ys : List UInt8) : Decidable (DifferOnce xs ys) :=
  inferInstanceAs (Decidable (_ ∧ _))

theorem eq_of_countP_zip_eq_zero {xs ys : List UInt8} (hlength : xs.length = ys.length)
    (hcount : (xs.zip ys).countP (fun pair => pair.1 != pair.2) = 0) :
    xs = ys := by
  induction xs generalizing ys with
  | nil =>
      exact (List.length_eq_zero_iff.mp hlength.symm).symm
  | cons x xs ih =>
      cases ys with
      | nil =>
          cases hlength
      | cons y ys =>
          rw [List.zip_cons_cons, List.countP_eq_zero, List.forall_mem_cons] at hcount
          have hrest := ih (Nat.succ.inj hlength) (List.countP_eq_zero.mpr hcount.2)
          have hfirst : x = y := by
            simpa using hcount.1
          rw [hfirst, hrest]

theorem DifferOnce.split {xs ys : List UInt8} (h : DifferOnce xs ys) :
    exists before x y after, xs = before ++ x :: after ∧ ys = before ++ y :: after ∧ x ≠ y := by
  rcases h with ⟨hlength, hcount⟩
  induction xs generalizing ys with
  | nil =>
      cases hcount
  | cons x xs ih =>
      cases ys with
      | nil =>
          cases hlength
      | cons y ys =>
          have hrest := Nat.succ.inj hlength
          rw [List.zip_cons_cons] at hcount
          by_cases hxy : x = y
          · rw [List.countP_cons_of_neg (by simp [hxy])] at hcount
            rcases ih hrest hcount with ⟨before, u, v, after, rfl, rfl, huv⟩
            exact ⟨x :: before, u, v, after, rfl, hxy ▸ rfl, huv⟩
          · rw [List.countP_cons_of_pos (by simp [hxy]), Nat.add_eq_right] at hcount
            rw [eq_of_countP_zip_eq_zero hrest hcount]
            exact ⟨[], x, y, ys, rfl, rfl, hxy⟩

theorem DifferOnce.append {xs ys : List UInt8} (h : DifferOnce xs ys) (before : List UInt8) :
    DifferOnce (before ++ xs) (before ++ ys) := by
  induction before with
  | nil =>
      exact h
  | cons x before ih =>
      refine ⟨congrArg Nat.succ ih.1, ?_⟩
      rw [List.cons_append, List.cons_append, List.zip_cons_cons,
        List.countP_cons_of_neg (by simp)]
      exact ih.2

theorem differOnce_ofBool {a b : Bool} (hne : a ≠ b) :
    DifferOnce (ofBool a) (ofBool b) := by
  cases a <;> cases b
  · exact absurd rfl hne
  · decide
  · decide
  · exact absurd rfl hne

end Bytes

end ValueStore
