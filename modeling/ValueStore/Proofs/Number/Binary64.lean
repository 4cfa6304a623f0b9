import ValueStore.Number.Binary64

/-!
# Equality of floating-point numbers

Numeric equality is symmetric and transitive, and fails to be reflexive at the NaNs
only. Numbers that are equal have the same bits once a zero has lost its sign.
-/

namespace ValueStore

namespace Binary64

theorem equal_eq_true_iff {x y : Binary64} :
    x.equal y = true ↔
      x.isNaN = false ∧ y.isNaN = false ∧ (x = y ∨ x.isZero = true ∧ y.isZero = true) := by
  simp [equal, and_assoc]

theorem equal_symm {x y : Binary64} (hxy : x.equal y = true) :
    y.equal x = true := by
  rw [equal_eq_true_iff] at hxy ⊢
  rcases hxy with ⟨hx, hy, heq | ⟨hxZero, hyZero⟩⟩
  · exact ⟨hy, hx, Or.inl heq.symm⟩
  · exact ⟨hy, hx, Or.inr ⟨hyZero, hxZero⟩⟩

theorem equal_trans {x y z : Binary64} (hxy : x.equal y = true) (hyz : y.equal z = true) :
    x.equal z = true := by
  rw [equal_eq_true_iff] at hxy hyz ⊢
  rcases hxy with ⟨hx, _hy, hxy⟩
  rcases hyz with ⟨_hy, hz, hyz⟩
  refine ⟨hx, hz, ?_⟩
  rcases hxy with rfl | ⟨hxZero, hyZero⟩
  · exact hyz
  · rcases hyz with rfl | ⟨_hyZero, hzZero⟩
    · exact Or.inr ⟨hxZero, hyZero⟩
    · exact Or.inr ⟨hxZero, hzZero⟩

theorem equal_self_iff {x : Binary64} :
    x.equal x = true ↔ x.isNaN = false := by
  simp [equal]

theorem normalizeZero_eq_of_equal {x y : Binary64} (hxy : x.equal y = true) :
    x.normalizeZero = y.normalizeZero := by
  rw [equal_eq_true_iff] at hxy
  rcases hxy with ⟨_hx, _hy, rfl | ⟨hxZero, hyZero⟩⟩
  · rfl
  · simp [normalizeZero, hxZero, hyZero]

theorem isNaN_of_isZero {x : Binary64} (hx : x.isZero = true) :
    x.isNaN = false := by
  rw [isZero, Bool.and_eq_true, beq_iff_eq] at hx
  simp [isNaN, hx.1]

theorem normalizeZero_eq_iff {x y : Binary64} :
    x.normalizeZero = y.normalizeZero ↔ x.equal y = true ∨ x = y ∧ x.isNaN = true := by
  constructor
  · intro heq
    by_cases hxZero : x.isZero = true
    · by_cases hyZero : y.isZero = true
      · have hequal := equal_eq_true_iff.mpr
          ⟨isNaN_of_isZero hxZero, isNaN_of_isZero hyZero, Or.inr ⟨hxZero, hyZero⟩⟩
        exact Or.inl hequal
      · rw [normalizeZero, normalizeZero, if_pos hxZero, if_neg hyZero] at heq
        exact absurd (heq ▸ rfl) hyZero
    · by_cases hyZero : y.isZero = true
      · rw [normalizeZero, normalizeZero, if_neg hxZero, if_pos hyZero] at heq
        exact absurd (heq ▸ rfl) hxZero
      · rw [normalizeZero, normalizeZero, if_neg hxZero, if_neg hyZero] at heq
        rw [heq]
        cases hnan : y.isNaN with
        | true =>
            exact Or.inr ⟨rfl, rfl⟩
        | false =>
            exact Or.inl (equal_self_iff.mpr hnan)
  · intro h
    rcases h with hequal | ⟨rfl, _hnan⟩
    · exact normalizeZero_eq_of_equal hequal
    · rfl

end Binary64

end ValueStore
