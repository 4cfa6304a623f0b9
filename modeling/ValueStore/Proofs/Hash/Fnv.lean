import ValueStore.Hash.Fnv
import ValueStore.Proofs.Hash.Bytes

/-!
# One byte changes the hash

A state that takes in a byte is permuted, since the prime is odd and so can be divided by
modulo `2 ^ 64`, and different bytes take it to different states. A difference in one byte
is therefore carried through all the bytes that follow, however many they are.
-/

namespace ValueStore

namespace Fnv

/-- The number to multiply with in order to undo the multiplication by the prime. -/
def inverse : UInt64 := 0xce965057aff6957b

theorem prime_mul_inverse : prime * inverse = 1 := by
  decide

theorem mul_prime_inj {x y : UInt64} (h : x * prime = y * prime) :
    x = y := by
  have hundo : forall z : UInt64, z * prime * inverse = z := by
    intro z
    rw [UInt64.mul_assoc, prime_mul_inverse, UInt64.mul_one]
  rw [← hundo x, h, hundo y]

theorem absorbByte_inj {h h' : Fnv} {byte : UInt8}
    (heq : h.absorbByte byte = h'.absorbByte byte) :
    h = h' := by
  have hstate := mul_prime_inj (Fnv.mk.inj heq)
  rw [UInt64.xor_left_inj] at hstate
  exact congrArg Fnv.mk hstate

theorem byte_eq_of_absorbByte_eq {h : Fnv} {x y : UInt8}
    (heq : h.absorbByte x = h.absorbByte y) :
    x = y := by
  have hword := mul_prime_inj (Fnv.mk.inj heq)
  rw [UInt64.xor_right_inj] at hword
  exact UInt8.toUInt64_inj.mp hword

theorem absorb_inj {h h' : Fnv} {bytes : List UInt8}
    (heq : h.absorb bytes = h'.absorb bytes) :
    h = h' := by
  induction bytes generalizing h h' with
  | nil =>
      exact heq
  | cons byte bytes ih =>
      exact absorbByte_inj (ih heq)

theorem absorb_ne_of_differOnce (h : Fnv) {xs ys : List UInt8} (hdiffer : Bytes.DifferOnce xs ys) :
    h.absorb xs ≠ h.absorb ys := by
  intro heq
  rcases hdiffer.split with ⟨before, x, y, after, rfl, rfl, hxy⟩
  rw [absorb_append, absorb_append] at heq
  have hstep : (h.absorb before).absorbByte x = (h.absorb before).absorbByte y :=
    absorb_inj heq
  exact hxy (byte_eq_of_absorbByte_eq hstep)

end Fnv

end ValueStore
