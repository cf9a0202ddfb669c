import OrbitReplay.Proofs.Scalar.Alike

namespace OrbitReplay.Scalar

class Tolerant (α : Type) [Scalar α] : Prop extends Subtractive α, Congruent α where
  zero_beq_zero : (ofNat 0 : α) == ofNat 0
  add_zero {x : α} : x == x → x + ofNat 0 == x
  not_add_lt {x t : α} : isFinite x → ¬ t < ofNat 0 → ¬ x + t < x
  not_lt_sub {x t : α} : isFinite x → ¬ t < ofNat 0 → ¬ x < x - t
  not_mul_lt_zero {x y : α} : ¬ x < ofNat 0 → ¬ y < ofNat 0 → ¬ x * y < ofNat 0
  zero_le_abs {x : α} : x == x → ofNat 0 ≤ abs x
  not_one_lt_zero : ¬ (ofNat 1 : α) < ofNat 0
  not_slack_lt_zero : ¬ (ofNat 8 * epsilon : α) < ofNat 0

/-- The sum with a finite number is a number if the other summand is one, and a slack taken of a
finite size is finite. -/
class Margined (α : Type) [Scalar α] : Prop extends Tolerant α where
  number_add_iff {x y : α} : isFinite x → (x + y == x + y ↔ y == y)
  isFinite_one : isFinite (ofNat 1 : α)
  isFinite_abs {x : α} : isFinite x → isFinite (abs x)
  isFinite_slack {x : α} : isFinite x → ofNat 1 ≤ x → isFinite (ofNat 8 * epsilon * x)

export Margined (number_add_iff isFinite_abs)

variable {α : Type} [Scalar α] {x y z : α}

theorem larger_of {P : α → Prop} (hx : P x) (hy : P y) : P (larger x y) := by
  rw [larger]
  split
  · exact hy
  · exact hx

theorem smaller_of {P : α → Prop} (hx : P x) (hy : P y) : P (smaller x y) := by
  rw [smaller]
  split
  · exact hy
  · exact hx

section Ordered

variable [Ordered α]

theorem le_larger_left (hx : x == x) : x ≤ larger x y := by
  rw [larger]
  split
  · next h => exact Scalar.le_of_lt h
  · exact le_of_beq hx

theorem le_larger_right (hx : x == x) (hy : y == y) : y ≤ larger x y := by
  rw [larger]
  split
  · exact le_of_beq hy
  · next h => exact Scalar.le_of_not_lt hx hy h

theorem smaller_le_right (hx : x == x) (hy : y == y) : smaller x y ≤ y := by
  rw [smaller]
  split
  · exact le_of_beq hy
  · next h => exact Scalar.le_of_not_lt hy hx h

theorem larger_of_not_number (hx : ¬ x == x) : larger x y = x := if_neg fun h ↦ hx (number_left h)

theorem smaller_of_not_number (hx : ¬ x == x) : smaller x y = x :=
  if_neg fun h ↦ hx (number_right h)

end Ordered

theorem isFinite_of_le_of_le [Subtractive α] (hx : isFinite x) (hz : isFinite z) (h : x ≤ y)
    (h' : y ≤ z) : isFinite y := by
  rcases le_iff.1 h with hlt | he
  · rcases le_iff.1 h' with hlt' | he'
    · exact Ordered.isFinite_of_between hlt hlt'
    · exact isFinite_of_beq hz (beq_symm he')
  · exact isFinite_of_beq hx he

theorem not_abs_lt_zero [Tolerant α] (hx : x == x) : ¬ abs x < ofNat 0 :=
  Scalar.not_lt_of_le (Tolerant.zero_le_abs hx)

end OrbitReplay.Scalar
