import Mathlib.Algebra.Order.Field.Rat
import Mathlib.Algebra.Order.Group.MinMax
import Mathlib.Algebra.Order.Ring.Abs
import Mathlib.Tactic.Linarith
import Mathlib.Tactic.Ring
import OrbitReplay.Proofs.Scalar.Tolerance

namespace OrbitReplay.Scalar

class Measured (α : Type) [Scalar α] extends Margined α where
  value : α → ℚ
  le_iff_value {x y : α} : isFinite x → isFinite y → (x ≤ y ↔ value x ≤ value y)
  value_one : value (ofNat 1) = 1
  value_abs {x : α} : isFinite x → value (abs x) = |value x|
  value_slack {x : α} : isFinite x → ofNat 1 ≤ x → value (ofNat 8 * epsilon * x) = value x / 2 ^ 49
  value_add {x y : α} : isFinite x → isFinite y → isFinite (x + y) →
    ∃ δ : ℚ, |δ| ≤ 1 / 2 ^ 53 ∧ value (x + y) = (value x + value y) * (1 + δ)
  value_sub {x y : α} : isFinite x → isFinite y → isFinite (x - y) →
    ∃ δ : ℚ, |δ| ≤ 1 / 2 ^ 53 ∧ value (x - y) = (value x - value y) * (1 + δ)

export Measured (value le_iff_value)

theorem abs_sub_le_of_relative {x y δ : ℚ} (hδ : |δ| ≤ 1 / 2 ^ 53) (h : y = x * (1 + δ)) :
    |y - x| ≤ |x| / 2 ^ 53 := by
  have hdiff : y - x = x * δ := by
    rw [h]
    ring
  calc |y - x|
    _ = |x| * |δ| := by rw [hdiff, abs_mul]
    _ ≤ |x| * (1 / 2 ^ 53) := mul_le_mul_of_nonneg_left hδ (abs_nonneg x)
    _ = |x| / 2 ^ 53 := by ring

variable {α : Type} [Scalar α] [Measured α] {x y : α}

theorem value_congr (hx : isFinite x) (h : x == y) : value x = value y := by
  have hy : isFinite y := isFinite_of_beq hx h
  exact le_antisymm ((le_iff_value hx hy).1 (le_of_beq h))
    ((le_iff_value hy hx).1 (le_of_beq (beq_symm h)))

theorem value_alike (hx : isFinite x) (h : Alike x y) : value x = value y := by
  rcases h with rfl | ⟨hx', hy'⟩
  · rfl
  · exact value_congr hx (beq_trans hx' (beq_symm hy'))

theorem value_larger (hx : isFinite x) (hy : isFinite y) :
    value (larger x y) = max (value x) (value y) := by
  rw [larger]
  split
  · next h => exact (max_eq_right ((le_iff_value hx hy).1 (Scalar.le_of_lt h))).symm
  · next h =>
    have hle : y ≤ x := Scalar.le_of_not_lt (number_of_isFinite hx) (number_of_isFinite hy) h
    exact (max_eq_left ((le_iff_value hy hx).1 hle)).symm

theorem value_smaller (hx : isFinite x) (hy : isFinite y) :
    value (smaller x y) = min (value x) (value y) := by
  rw [smaller]
  split
  · next h => exact (min_eq_right ((le_iff_value hy hx).1 (Scalar.le_of_lt h))).symm
  · next h =>
    have hle : x ≤ y := Scalar.le_of_not_lt (number_of_isFinite hy) (number_of_isFinite hx) h
    exact (min_eq_left ((le_iff_value hx hy).1 hle)).symm

theorem value_add_error (hx : isFinite x) (hy : isFinite y) (h : isFinite (x + y)) :
    |value (x + y) - (value x + value y)| ≤ |value x + value y| / 2 ^ 53 := by
  obtain ⟨δ, hδ, hv⟩ := Measured.value_add hx hy h
  exact abs_sub_le_of_relative hδ hv

theorem value_sub_error (hx : isFinite x) (hy : isFinite y) (h : isFinite (x - y)) :
    |value (x - y) - (value x - value y)| ≤ |value x - value y| / 2 ^ 53 := by
  obtain ⟨δ, hδ, hv⟩ := Measured.value_sub hx hy h
  exact abs_sub_le_of_relative hδ hv

/-- The offset of one number from another, added back, misses it by no more than four roundings of
the greater of the two. -/
theorem value_offset_back {size : ℚ} (hx : isFinite x) (hy : isFinite y) (hd : isFinite (x - y))
    (hs : isFinite (y + (x - y))) (hxs : |value x| ≤ size) (hys : |value y| ≤ size) :
    |value (y + (x - y)) - value x| ≤ size / 2 ^ 51 := by
  have hoffset := value_sub_error hx hy hd
  have hback := value_add_error hy hd hs
  have hwide : |value x - value y| ≤ 2 * size := by
    have := abs_sub (value x) (value y)
    linarith
  generalize value (x - y) = e at *
  generalize value (y + (x - y)) = t at *
  -- What is lost in the offset is all that the exact sum misses the number by.
  have hmissed : |e - (value x - value y)| ≤ 2 * size / 2 ^ 53 := by linarith
  have hsum : |value y + e| ≤ size + 2 * size / 2 ^ 53 := by
    rw [abs_le] at hmissed hxs ⊢
    constructor <;> linarith
  have hsize : 0 ≤ size := (abs_nonneg _).trans hxs
  rw [abs_le] at hmissed ⊢
  have hback' := abs_le.1 (hback.trans (div_le_div_of_nonneg_right hsum (by norm_num)))
  constructor <;> linarith

end OrbitReplay.Scalar
