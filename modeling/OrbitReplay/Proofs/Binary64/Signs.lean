import OrbitReplay.Proofs.Scalar.Tolerance
import OrbitReplay.Proofs.Binary64.Zeros

namespace OrbitReplay.Binary64

open Float.Model Float.Model.UnpackedFloat

theorem neg_neg_sign (s : Sign) : - -s = s := by
  cases s <;> rfl

theorem add_eq_sub_neg (u v : UnpackedFloat) :
    UnpackedFloat.add Format.binary64 u v = UnpackedFloat.sub Format.binary64 u v.neg := by
  cases u with
  | notANumber => cases v <;> rfl
  | infinity s =>
    cases v <;> simp only [UnpackedFloat.add, UnpackedFloat.sub, UnpackedFloat.neg, neg_neg_sign]
  | zero s =>
    cases v <;> simp only [UnpackedFloat.add, UnpackedFloat.sub, UnpackedFloat.neg, neg_neg_sign]
  | finite s m e hm =>
    cases v with
    | finite t n f hn =>
      simp only [UnpackedFloat.add, UnpackedFloat.sub, UnpackedFloat.neg, apply_neg, Int.sub_neg]
    | _ => simp only [UnpackedFloat.add, UnpackedFloat.sub, UnpackedFloat.neg, neg_neg_sign]

theorem units_neg (u : UnpackedFloat) : units u.neg = -units u := by
  cases u <;> simp only [UnpackedFloat.neg, units, apply_neg, Int.neg_zero]

theorem canonical_neg {u : UnpackedFloat} (h : Canonical u) : Canonical u.neg := by
  cases u <;> exact h

theorem isNaN_neg (u : UnpackedFloat) : u.neg.isNaN = u.isNaN := by
  cases u <;> rfl

theorem number_of_number_add {x y : Float} (h : IsNumber (x + y)) : IsNumber x ∧ IsNumber y := by
  have hadd : (x + y).toModel.unpack =
    stored (UnpackedFloat.add Format.binary64 x.toModel.unpack y.toModel.unpack) := rfl
  by_contra hn
  rw [IsNumber, IsNumber, ← isNaN_neg y.toModel.unpack] at hn
  rw [IsNumber, hadd, add_eq_sub_neg, sub_eq_notANumber hn] at h
  exact absurd h (by decide)

theorem value_add_of_isFinite {x y : Float} (hx : IsNumber x) (hy : IsNumber y)
    (h : x.isFinite ∨ y.isFinite) :
    IsNumber (x + y) ∧ value (x + y) = near (value x + value y) := by
  have hadd : (x + y).toModel.unpack =
    stored (UnpackedFloat.add Format.binary64 x.toModel.unpack y.toModel.unpack) := rfl
  have hy' : y.toModel.unpack.neg.isNaN = false := (isNaN_neg _).trans hy
  have hunits : near (value x + value y) =
      near (units x.toModel.unpack - units y.toModel.unpack.neg) := by
    rw [units_neg, Int.sub_neg, value, value]
  rw [IsNumber, value, hadd, add_eq_sub_neg, hunits]
  rcases hasUnits_sub (canonical x) (canonical_neg (canonical y)) hx hy' with ⟨s, hxs, hys, -⟩ | hn
  · have hfx : x.isFinite = x.toModel.unpack.isFinite := rfl
    have hfy : y.isFinite = y.toModel.unpack.isFinite := rfl
    rw [hfx, hfy, hxs] at h
    generalize y.toModel.unpack = v at hys h
    exfalso
    cases v with
    | infinity t => rcases h with h | h <;> cases h
    | _ => cases hys
  · exact hn

theorem near_value (x : Float) : near (value x) = value x := by
  have hinf := infinite_eq
  have hbound := bound_pos
  have hx := canonical x
  rw [value]
  generalize x.toModel.unpack = u at hx
  cases u with
  | notANumber => exact near_zero
  | zero s => exact near_zero
  | infinity s =>
    cases s
    · exact near_of_le_neg (by simp only [units, Sign.apply]; omega)
    · exact near_of_le (by simp only [units, Sign.apply]; omega)
  | finite s m e hm => exact near_units_finite s hm hx

def NotNegative : UnpackedFloat → Prop
  | .infinity s => s = .positive
  | .finite s _ _ _ => s = .positive
  | _ => True

theorem notNegative_unpack (x : BitVec 11) (m : BitVec 52) :
    NotNegative (UnpackedFloat.unpack Format.binary64
      (packComponents Format.binary64 .positive x m)) := by
  rw [unpack_packComponents]
  split
  · split
    · rfl
    · exact trivial
  · split
    · split
      · exact trivial
      · rfl
    · rfl

/-- Also of a result that no longer has the right shape: packing keeps the sign. -/
theorem NotNegative.stored {u : UnpackedFloat} (h : NotNegative u) : NotNegative (stored u) := by
  cases u with
  | finite s m e hm =>
    obtain rfl : s = .positive := h
    rw [Binary64.stored, UnpackedFloat.pack]
    split
    · exact notNegative_unpack _ _
    · split <;> exact notNegative_unpack _ _
  | infinity s =>
    obtain rfl : s = .positive := h
    exact notNegative_unpack _ _
  | zero s =>
    rw [Binary64.stored, unpack_pack (u := .zero s) trivial]
    exact trivial
  | notANumber => exact notNegative_unpack _ _

theorem not_lt_zero_iff {x : Float} : ¬ x < Float.ofNat 0 ↔ NotNegative x.toModel.unpack := by
  have h : x < Float.ofNat 0 ↔ x.toModel.unpack.compare (.zero .positive) == some .lt :=
    decide_eq_true_iff
  rw [h]
  cases x.toModel.unpack with
  | notANumber => simp [UnpackedFloat.compare, NotNegative]
  | zero s => simp [UnpackedFloat.compare, NotNegative]
  | infinity s => cases s <;> simp [UnpackedFloat.compare, NotNegative]
  | finite s m e hm => cases s <;> simp [UnpackedFloat.compare, NotNegative]

theorem NotNegative.roundWithAccuracy (m : Nat) (e : Int) (a : Accuracy) :
    NotNegative (UnpackedFloat.roundWithAccuracy Format.binary64 .positive m e a) := by
  simp only [UnpackedFloat.roundWithAccuracy]
  split
  · exact trivial
  · rfl

theorem NotNegative.mul {u v : UnpackedFloat} (hu : NotNegative u) (hv : NotNegative v) :
    NotNegative (UnpackedFloat.mul Format.binary64 u v) := by
  cases u with
  | notANumber => cases v <;> exact trivial
  | zero s => cases v <;> exact trivial
  | infinity s =>
    obtain rfl : s = .positive := hu
    cases v with
    | infinity t =>
      obtain rfl : t = .positive := hv
      rfl
    | finite t n f hn =>
      obtain rfl : t = .positive := hv
      rfl
    | _ => exact trivial
  | finite s m e hm =>
    obtain rfl : s = .positive := hu
    cases v with
    | infinity t =>
      obtain rfl : t = .positive := hv
      rfl
    | finite t n f hn =>
      obtain rfl : t = .positive := hv
      exact .roundWithAccuracy _ _ _
    | _ => exact trivial

theorem value_nonneg {x : Float} (hx : IsNumber x) (h : ¬ x < Float.ofNat 0) : 0 ≤ value x := by
  by_contra hneg
  exact h (lt_iff.2 ⟨hx, number_zero, value_zero.symm ▸ Int.not_le.1 hneg⟩)

theorem unpack_of_not_isNumber {x : Float} (h : ¬ IsNumber x) :
    x.toModel.unpack = .notANumber := by
  rw [IsNumber] at h
  generalize x.toModel.unpack = u at h
  cases u <;> first | rfl | exact absurd rfl h

theorem number_sub_comm {x y : Float} (h : IsNumber (x - y)) :
    IsNumber (y - x) ∧ value (y - x) = -value (x - y) := by
  obtain ⟨hx, hy⟩ := number_of_number_sub h
  rcases value_sub hx hy with ⟨-, hn⟩ | ⟨-, hv⟩
  · exact absurd h hn
  rcases value_sub hy hx with ⟨⟨s, hys, hxs⟩, -⟩ | ⟨hn, hw⟩
  · have hsub : (x - y).toModel.unpack =
      stored (UnpackedFloat.sub Format.binary64 x.toModel.unpack y.toModel.unpack) := rfl
    rw [IsNumber, hsub, hxs, hys] at h
    cases s <;> exact absurd h (by decide)
  · refine ⟨hn, ?_⟩
    rw [hv, hw, ← near_neg, Int.neg_sub]

/-- Opposite values are of one size, also as zeros: a size has no sign. -/
theorem abs_eq_abs {x y : Float} (hx : IsNumber x) (hy : IsNumber y) (h : value y = -value x) :
    x.abs = y.abs := by
  obtain ⟨hvx, hnx⟩ := value_abs x
  obtain ⟨hvy, hny⟩ := value_abs y
  have he : x.abs == y.abs := beq_iff.2 ⟨hnx hx, hny hy, by rw [hvx, hvy, h, Int.natAbs_neg]⟩
  have hzero {z : Float} (hz : z.abs == Float.ofNat 0) :
      z.abs.toModel.unpack = .zero .positive := by
    obtain ⟨s, hs⟩ := beq_zero_iff.1 hz
    rw [unpack_abs] at hs ⊢
    generalize z.toModel.unpack = u at hs
    cases u <;> first | rfl | cases hs
  rcases Scalar.alike_of_beq he with h | ⟨hx', hy'⟩
  · exact h
  · exact unpack_injective ((hzero hx').trans (hzero hy').symm)

theorem abs_sub_comm (x y : Float) : (x - y).abs = (y - x).abs := by
  by_cases h : IsNumber (x - y)
  · obtain ⟨h', hv⟩ := number_sub_comm h
    exact abs_eq_abs h h' hv
  · have h' : ¬ IsNumber (y - x) := fun h' ↦ h (number_sub_comm h').1
    refine unpack_injective ?_
    rw [unpack_abs, unpack_abs, unpack_of_not_isNumber h, unpack_of_not_isNumber h']

end OrbitReplay.Binary64

namespace OrbitReplay

open Binary64 Float.Model

instance : Scalar.Tolerant Float where
  zero_beq_zero := by decide
  add_zero := by
    intro x h
    have hx := (beq_iff.1 h).1
    obtain ⟨hn, hv⟩ := value_add_of_isFinite hx number_zero (.inr (by decide))
    have he : value (x + Float.ofNat 0) = value x := by
      rw [hv, value_zero, Int.add_zero, near_value]
    exact beq_iff.2 ⟨hn, hx, he⟩
  not_add_lt := by
    intro x t hx ht h
    obtain ⟨hn, -, h⟩ := lt_iff.1 h
    obtain ⟨hx', ht'⟩ := number_of_number_add hn
    have hle : value x ≤ value x + value t := by
      have := value_nonneg ht' ht
      omega
    rw [(value_add_of_isFinite hx' ht' (.inl hx)).2] at h
    have := near_mono hle
    rw [near_value] at this
    omega
  not_lt_sub := by
    intro x t hx ht h
    obtain ⟨-, hn, h⟩ := lt_iff.1 h
    obtain ⟨hx', ht'⟩ := number_of_number_sub hn
    have hle : value x - value t ≤ value x := by
      have := value_nonneg ht' ht
      omega
    rw [(value_sub_of_isFinite hx' ht' (.inl hx)).2] at h
    have := near_mono hle
    rw [near_value] at this
    omega
  not_mul_lt_zero := by
    intro x y hx hy
    exact not_lt_zero_iff.2 ((not_lt_zero_iff.1 hx).mul (not_lt_zero_iff.1 hy)).stored
  zero_le_abs := by
    intro x h
    obtain ⟨hv, hn⟩ := value_abs x
    refine Binary64.le_iff.2 ⟨number_zero, hn (beq_iff.1 h).1, ?_⟩
    have h0 : value (Float.ofNat 0) ≤ (value x).natAbs := by
      rw [value_zero]
      omega
    exact h0.trans_eq hv.symm
  not_one_lt_zero := by decide
  not_slack_lt_zero := by decide

instance : Scalar.Mirrored Float where
  distance_comm := abs_sub_comm

instance : Scalar.Opposed Float where
  zero_lt_sub_iff := by
    intro x y
    have hzero : value (Scalar.ofNat 0) = 0 := value_zero
    refine lt_iff.trans (Iff.trans ?_ lt_iff.symm)
    rw [hzero]
    refine ⟨fun ⟨_, hn, h⟩ ↦ ?_, fun ⟨hn, _, h⟩ ↦ ?_⟩
    · obtain ⟨hn', hv⟩ := number_sub_comm hn
      exact ⟨hn', number_zero, hv ▸ Int.neg_neg_of_pos h⟩
    · obtain ⟨hn', hv⟩ := number_sub_comm hn
      exact ⟨number_zero, hn', hv ▸ Int.neg_pos_of_neg h⟩

end OrbitReplay
