import Mathlib.Data.BitVec

/-!
Fields of a word that is masked and written, and words whose bits are all in another.
-/

namespace BitFields

variable {w s l : ℕ} {x m : BitVec w}

theorem field_kept (h : m.extractLsb' s l = BitVec.allOnes l) :
    (x &&& m).extractLsb' s l = x.extractLsb' s l := by
  rw [BitVec.extractLsb'_and, h, BitVec.and_allOnes]

theorem field_cleared (h : m.extractLsb' s l = 0#l) : (x &&& m).extractLsb' s l = 0#l := by
  rw [BitVec.extractLsb'_and, h, BitVec.and_zero]

theorem field_or_zero {y : BitVec w} (h : y.extractLsb' s l = 0#l) :
    (x ||| y).extractLsb' s l = x.extractLsb' s l := by
  rw [BitVec.extractLsb'_or, h, BitVec.or_zero]

theorem or_eq_right_iff_and_not (x n : BitVec w) : x ||| n = n ↔ x &&& ~~~n = 0 := by
  constructor
  · intro h
    calc x &&& ~~~n = x &&& ~~~(x ||| n) := by rw [h]
      _ = x &&& (~~~x &&& ~~~n) := by rw [BitVec.not_or]
      _ = 0 := by
        rw [← BitVec.and_assoc, BitVec.and_not_self]
        exact BitVec.zero_and
  · intro h
    apply BitVec.eq_of_getLsbD_eq
    intro i hi
    have hbit := congrArg (·.getLsbD i) h
    simp [hi] at hbit ⊢
    exact hbit

theorem or_or_eq_right_iff (x y n : BitVec w) : x ||| y ||| n = n ↔ x ||| n = n ∧ y ||| n = n := by
  constructor
  · intro h
    constructor
    · calc x ||| n = x ||| (x ||| y ||| n) := by rw [h]
        _ = x ||| y ||| n := by rw [← BitVec.or_assoc, ← BitVec.or_assoc, BitVec.or_self]
        _ = n := h
    · calc y ||| n = y ||| (x ||| y ||| n) := by rw [h]
        _ = x ||| y ||| n := by
          rw [BitVec.or_comm x, ← BitVec.or_assoc, ← BitVec.or_assoc, BitVec.or_self]
        _ = n := h
  · rintro ⟨hx, hy⟩
    rw [BitVec.or_assoc, hy, hx]

end BitFields
