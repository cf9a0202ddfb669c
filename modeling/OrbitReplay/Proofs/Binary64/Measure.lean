import Mathlib.Algebra.Order.Field.Basic
import Mathlib.Tactic.FieldSimp
import Mathlib.Tactic.Positivity
import OrbitReplay.Proofs.Binary64.Signs
import OrbitReplay.Proofs.Scalar.Measure

namespace OrbitReplay.Binary64

open Float.Model Float.Model.UnpackedFloat

theorem near_error {n : Int} (hlow : -infinite < near n) (hhigh : near n < infinite) :
    2 ^ 53 * near n ≤ 2 ^ 53 * n + |n| ∧ 2 ^ 53 * n ≤ 2 ^ 53 * near n + |n| := by
  have hclip {m : Nat} (h : clip m < infinite) : clip m = m := by
    unfold clip at h ⊢
    split
    · rfl
    · next hb =>
      rw [if_neg hb] at h
      exact absurd h (Nat.lt_irrefl _)
  rcases Int.le_total 0 n with h | h
  · lift n to Nat using h
    rw [near_natCast] at hhigh ⊢
    obtain ⟨hup, hdown⟩ := rounded_error n
    rw [hclip (by omega), Nat.abs_cast]
    omega
  · obtain ⟨m, rfl⟩ : ∃ m : Nat, n = -m := ⟨(-n).toNat, by omega⟩
    rw [near_neg, near_natCast] at hlow ⊢
    obtain ⟨hup, hdown⟩ := rounded_error m
    rw [hclip (by omega), abs_neg, Nat.abs_cast]
    omega

theorem unpack_slack :
    (Scalar.ofNat 8 * Scalar.epsilon : Float).toModel.unpack =
      .finite .positive (2 ^ 52) (-101) (by decide) := rfl

theorem shape_one : Shape (2 ^ 52) (-52) := ⟨by decide, by decide, .inl (by decide)⟩

theorem exists_unpack_of_one_le {x : Float} (hx : x.isFinite) (h : Float.ofNat 1 ≤ x) :
    ∃ m e, ∃ hm : 0 < m, x.toModel.unpack = .finite .positive m e hm ∧ Shape m e ∧ -52 ≤ e ∧
      e ≤ 971 := by
  have hcanonical := canonical x
  have hfinite : x.toModel.unpack.isFinite := hx
  have hvalue : (magnitude (2 ^ 52) (-52) : Int) ≤ units x.toModel.unpack := (le_iff.1 h).2.2
  have hpos : 0 < magnitude (2 ^ 52) (-52) := magnitude_pos _ (by decide)
  generalize x.toModel.unpack = u at *
  cases u with
  | notANumber => cases hfinite
  | infinity s => cases hfinite
  | zero s =>
    simp only [units] at hvalue
    omega
  | finite s m e hm =>
    cases s with
    | negative =>
      simp only [units, Sign.apply] at hvalue
      omega
    | positive =>
      refine ⟨m, e, hm, rfl, hcanonical.1, ?_, hcanonical.2⟩
      by_contra he
      have hlt := hcanonical.1.magnitude_lt_magnitude shape_one (by omega)
      simp only [units, Sign.apply] at hvalue
      omega

/-- Nothing of a number from one on is lost in the slack. -/
theorem slack_exact {x : Float} (hx : x.isFinite) (h : Float.ofNat 1 ≤ x) :
    (Scalar.ofNat 8 * Scalar.epsilon * x).isFinite ∧
      2 ^ 49 * value (Scalar.ofNat 8 * Scalar.epsilon * x) = value x := by
  obtain ⟨m, e, hm, hu, hshape, hlow, hhigh⟩ := exists_unpack_of_one_le hx h
  have hmul : (Scalar.ofNat 8 * Scalar.epsilon * x).toModel.unpack =
      stored (UnpackedFloat.mul Format.binary64
        (Scalar.ofNat 8 * Scalar.epsilon : Float).toModel.unpack x.toModel.unpack) := rfl
  have hpos : 0 < 2 ^ 52 * m := Nat.mul_pos (by decide) hm
  have hlog : (2 ^ 52 * m).log2 = m.log2 + 52 := by
    rw [Nat.mul_comm]
    exact log2_mul_two_pow hm 52
  have htarget : -101 + e ≤
      Format.binary64.targetExponent (totalExponent (2 ^ 52 * m) (-101 + e)) := by
    rw [targetExponent_eq, hlog]
    omega
  obtain ⟨m', e', hm', hround, hshape', hmag⟩ :=
    roundWithAccuracy_exact (.positive * .positive) hpos (by omega) htarget
  have hexact : magnitude (2 ^ 52 * m) (-101 + e) = m * 2 ^ (52 + (-101 + e + 1074).toNat) := by
    rw [magnitude, Nat.pow_add]
    ring
  rw [hexact, rounded_of_exact hshape.lt_two_pow] at hmag
  have hscaled : magnitude m e = 2 ^ 49 * magnitude m' e' := by
    have hexp : (e + 1074).toNat = 52 + (-101 + e + 1074).toNat + 49 := by omega
    rw [hmag, magnitude, hexp, Nat.pow_add _ _ 49]
    ring
  have hfits : e' ≤ 971 := by
    by_contra hgreat
    have hbound := hshape'.le_magnitude (by omega)
    have hlt := hshape.magnitude_lt hhigh
    omega
  have hstored : (Scalar.ofNat 8 * Scalar.epsilon * x).toModel.unpack =
      .finite (.positive * .positive) m' e' hm' := by
    rw [hmul, unpack_slack, hu, stored]
    rw [UnpackedFloat.mul, hround, unpack_pack_finite _ hm' hshape', if_pos hfits]
  refine ⟨?_, ?_⟩
  · have hfinite : (Scalar.ofNat 8 * Scalar.epsilon * x).isFinite =
        (Scalar.ofNat 8 * Scalar.epsilon * x).toModel.unpack.isFinite := rfl
    rw [hfinite, hstored]
    rfl
  · rw [value, value, hstored, hu]
    change 2 ^ 49 * (magnitude m' e' : Int) = magnitude m e
    omega

theorem exists_relative {m n : Int} (hup : 2 ^ 53 * m ≤ 2 ^ 53 * n + |n|)
    (hdown : 2 ^ 53 * n ≤ 2 ^ 53 * m + |n|) :
    ∃ δ : ℚ, |δ| ≤ 1 / 2 ^ 53 ∧ (m : ℚ) = n * (1 + δ) := by
  rcases eq_or_ne n 0 with rfl | hn
  · refine ⟨0, by norm_num, ?_⟩
    rw [abs_zero] at hup hdown
    have hm : m = 0 := by omega
    rw [hm]
    norm_num
  · have hn' : (n : ℚ) ≠ 0 := Int.cast_ne_zero.2 hn
    have herror : 2 ^ 53 * |m - n| ≤ |n| := by
      rcases abs_cases (m - n) with ⟨h, -⟩ | ⟨h, -⟩ <;> omega
    refine ⟨(m - n) / n, ?_, by field_simp; ring⟩
    rw [abs_div, div_le_div_iff₀ (abs_pos.2 hn') (by norm_num)]
    have hcast : ((2 ^ 53 * |m - n| : Int) : ℚ) ≤ (|n| : Int) := Int.cast_le.2 herror
    push_cast at hcast
    linarith

theorem exists_relative_near {n : Int} {x : Float} (hx : x.isFinite) (h : value x = near n) :
    ∃ δ : ℚ, |δ| ≤ 1 / 2 ^ 53 ∧ (value x : ℚ) = n * (1 + δ) := by
  obtain ⟨-, hlow, hhigh⟩ := isFinite_iff.1 hx
  rw [h] at hlow hhigh ⊢
  obtain ⟨hup, hdown⟩ := near_error hlow hhigh
  exact exists_relative hup hdown

end OrbitReplay.Binary64

namespace OrbitReplay

open Binary64

instance : Scalar.Margined Float where
  number_add_iff := by
    intro x y hx
    refine ⟨fun h ↦ ?_, fun h ↦ ?_⟩
    · have hy := (number_of_number_add (beq_iff.1 h).1).2
      exact beq_iff.2 ⟨hy, hy, rfl⟩
    · have hn := (value_add_of_isFinite (isFinite_iff.1 hx).1 (beq_iff.1 h).1 (.inl hx)).1
      exact beq_iff.2 ⟨hn, hn, rfl⟩
  isFinite_one := by decide
  isFinite_abs := by
    intro x hx
    obtain ⟨hn, hlow, hhigh⟩ := isFinite_iff.1 hx
    obtain ⟨hv, habs⟩ := value_abs x
    have hfinite : x.abs.isFinite := isFinite_iff.2 ⟨habs hn, by omega, by omega⟩
    exact hfinite
  isFinite_slack hx h := (slack_exact hx h).1

instance : Scalar.Measured Float where
  value x := (Binary64.value x : ℚ) / 2 ^ 1074
  le_iff_value := by
    intro x y hx hy
    rw [div_le_div_iff_of_pos_right (by positivity), Int.cast_le, Binary64.le_iff]
    exact ⟨fun h ↦ h.2.2, fun h ↦ ⟨(isFinite_iff.1 hx).1, (isFinite_iff.1 hy).1, h⟩⟩
  value_one := by
    have hone : Binary64.value (Scalar.ofNat 1) = 2 ^ 1074 := by decide +kernel
    rw [hone, Int.cast_pow]
    exact div_self (by positivity)
  value_abs := by
    intro x _
    have habs : Binary64.value (Scalar.abs x) = |Binary64.value x| :=
      (value_abs x).1.trans (Int.natCast_natAbs _)
    have hunit : |(2 : ℚ) ^ 1074| = 2 ^ 1074 := abs_of_pos (by positivity)
    rw [habs, abs_div, Int.cast_abs, hunit]
  value_slack := by
    intro x hx h
    rw [← (slack_exact hx h).2, Int.cast_mul, Int.cast_pow, Int.cast_ofNat, mul_div_assoc,
      mul_div_cancel_left₀ _ (by norm_num)]
  value_add := by
    intro x y hx hy h
    have hv := (value_add_of_isFinite (isFinite_iff.1 hx).1 (isFinite_iff.1 hy).1 (.inl hx)).2
    obtain ⟨δ, hδ, he⟩ := exists_relative_near h hv
    refine ⟨δ, hδ, ?_⟩
    rw [he, Int.cast_add, mul_div_right_comm, add_div]
  value_sub := by
    intro x y hx hy h
    have hv := (value_sub_of_isFinite (isFinite_iff.1 hx).1 (isFinite_iff.1 hy).1 (.inl hx)).2
    obtain ⟨δ, hδ, he⟩ := exists_relative_near h hv
    refine ⟨δ, hδ, ?_⟩
    rw [he, Int.cast_sub, mul_div_right_comm, sub_div]

end OrbitReplay
