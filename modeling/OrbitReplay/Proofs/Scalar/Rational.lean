import Mathlib.Algebra.Order.Group.Unbundled.Abs
import Mathlib.Algebra.Order.Ring.Rat
import OrbitReplay.Proofs.Scalar.Tolerance

namespace OrbitReplay.Scalar

theorem beq_rat {x y : Rat} : x == y ↔ x = y := beq_iff_eq

@[simp]
theorem ofNat_rat (n : Nat) : (ofNat n : Rat) = n := rfl

theorem abs_rat (x : Rat) : Scalar.abs x = |x| := by
  change (if x < 0 then -x else x) = |x|
  split
  · next h => exact (abs_of_neg h).symm
  · next h => exact (abs_of_nonneg (not_lt.1 h)).symm

theorem distance_rat (x y : Rat) : distance x y = |x - y| := abs_rat (x - y)

instance : Mirrored Rat where
  beq_symm h := beq_rat.2 (beq_rat.1 h).symm
  beq_trans h h' := beq_rat.2 ((beq_rat.1 h).trans (beq_rat.1 h'))
  lt_irrefl x := lt_irrefl x
  lt_trans h h' := lt_trans h h'
  lt_of_beq_of_lt h h' := beq_rat.1 h ▸ h'
  lt_of_lt_of_beq h h' := beq_rat.1 h' ▸ h
  le_iff := by
    intro x y
    rw [beq_rat]
    exact le_iff_lt_or_eq
  trichotomy _ _ := by
    rw [beq_rat]
    exact lt_trichotomy _ _
  number_of_lt _ := ⟨beq_rat.2 rfl, beq_rat.2 rfl⟩
  number_of_isFinite _ := beq_rat.2 rfl
  isFinite_of_between _ _ := rfl
  sub_le_sub_right _ h := sub_le_sub_right h _
  sub_le_sub_left _ h := sub_le_sub_left h _
  sub_beq_zero_iff := by
    intro x y
    rw [beq_rat, beq_rat, ofNat_rat, Nat.cast_zero, sub_eq_zero]
    exact (and_iff_left rfl).symm
  abs_of_nonneg h := beq_rat.2 ((abs_rat _).trans (abs_of_nonneg h))
  distance_comm x y := by rw [distance_rat, distance_rat, abs_sub_comm]

instance : Opposed Rat where
  zero_lt_sub_iff := sub_pos.trans sub_neg.symm

instance : Absorbing Rat where
  number_of_distance _ := ⟨beq_rat.2 rfl, beq_rat.2 rfl⟩

theorem alike_rat {x y : Rat} : Alike x y ↔ x = y := by
  refine ⟨fun h ↦ ?_, .inl⟩
  rcases h with h | ⟨hx, hy⟩
  · exact h
  · exact (beq_rat.1 hx).trans (beq_rat.1 hy).symm

theorem alikeAll_rat {xs ys : List Rat} : AlikeAll xs ys ↔ xs = ys := by
  refine ⟨fun h ↦ ?_, fun h ↦ h ▸ .rfl⟩
  rw [← List.forall₂_eq_eq_eq]
  exact h.imp fun _ _ ↦ alike_rat.1

instance : Congruent Rat where
  alike_of_beq h := .inl (beq_rat.1 h)
  isFinite_of_zero _ := rfl
  alike_add hx hy := .inl (congrArg₂ (· + ·) (alike_rat.1 hx) (alike_rat.1 hy))
  alike_sub hx hy := .inl (congrArg₂ (· - ·) (alike_rat.1 hx) (alike_rat.1 hy))
  alike_mul hx hy := .inl (congrArg₂ (· * ·) (alike_rat.1 hx) (alike_rat.1 hy))
  alike_div hx y := .inl (congrArg (· / y) (alike_rat.1 hx))
  alike_abs hx := .inl (congrArg Scalar.abs (alike_rat.1 hx))

instance : Tolerant Rat where
  zero_beq_zero := beq_rat.2 rfl
  add_zero _ := beq_rat.2 (add_zero _)
  not_add_lt _ ht := not_lt.2 (le_add_of_nonneg_right (not_lt.1 ht))
  not_lt_sub _ ht := not_lt.2 (sub_le_self _ (not_lt.1 ht))
  not_mul_lt_zero hx hy := not_lt.2 (mul_nonneg (not_lt.1 hx) (not_lt.1 hy))
  zero_le_abs _ := (abs_nonneg _).trans_eq (abs_rat _).symm
  not_one_lt_zero := by decide
  not_slack_lt_zero := by decide +kernel

instance : Extended Rat where
  sub_le_sub_right_of_finite _ _ _ h := sub_le_sub_right h _
  sub_le_sub_left_of_finite _ _ _ h := sub_le_sub_left h _

end OrbitReplay.Scalar
