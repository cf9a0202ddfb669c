import OrbitReplay.Proofs.Scalar.Order
import OrbitReplay.Proofs.Binary64.Difference

namespace OrbitReplay.Binary64

open Float.Model Float.Model.UnpackedFloat

def IsNumber (x : Float) : Prop := x.toModel.unpack.isNaN = false

instance (x : Float) : Decidable (IsNumber x) :=
  inferInstanceAs (Decidable (x.toModel.unpack.isNaN = false))

def value (x : Float) : Int := units x.toModel.unpack

theorem canonical (x : Float) : Canonical x.toModel.unpack := unpack_canonical _

theorem compare_eq_none {x y : UnpackedFloat} (h : ¬ (x.isNaN = false ∧ y.isNaN = false)) :
    x.compare y = none := by
  cases x <;> cases y <;> first | rfl | exact absurd ⟨rfl, rfl⟩ h

theorem compare_value (x y : Float) :
    x.toModel.unpack.compare y.toModel.unpack =
      if IsNumber x ∧ IsNumber y then some (compare (value x) (value y)) else none := by
  split
  · next h => exact compare_units (canonical x) (canonical y) h.1 h.2
  · next h => exact compare_eq_none h

theorem beq_iff {x y : Float} : x == y ↔ IsNumber x ∧ IsNumber y ∧ value x = value y := by
  have h : (x == y) = (x.toModel.unpack.compare y.toModel.unpack == some .eq) := rfl
  rw [h, compare_value]
  split
  · next h => simp [h]
  · next h => simp [← and_assoc, h]

theorem beq_self_iff (x : Float) : x == x ↔ x.isNaN = false :=
  beq_iff.trans ⟨And.left, fun h ↦ ⟨h, h, rfl⟩⟩

theorem lt_iff {x y : Float} : x < y ↔ IsNumber x ∧ IsNumber y ∧ value x < value y := by
  have h : x < y ↔ x.toModel.unpack.compare y.toModel.unpack == some .lt := decide_eq_true_iff
  rw [h, compare_value]
  split
  · next h => simp [h, compare_lt_iff_lt]
  · next h => simp [← and_assoc, h]

theorem le_iff {x y : Float} : x ≤ y ↔ IsNumber x ∧ IsNumber y ∧ value x ≤ value y := by
  have h : x ≤ y ↔ (x.toModel.unpack.compare y.toModel.unpack).any (·.isLE) := decide_eq_true_iff
  rw [h, compare_value]
  split
  · next h => simp [h, Ordering.isLE_iff_ne_gt, compare_le_iff_le]
  · next h => simp [← and_assoc, h]

theorem isFinite_iff {x : Float} :
    x.isFinite ↔ IsNumber x ∧ -infinite < value x ∧ value x < infinite := by
  have hinf := infinite_eq
  have hbound := bound_pos
  have hx := canonical x
  have h : x.isFinite = x.toModel.unpack.isFinite := rfl
  rw [h, IsNumber, value]
  generalize x.toModel.unpack = u at hx
  cases u with
  | notANumber => simp [UnpackedFloat.isFinite, UnpackedFloat.isNaN]
  | infinity s => cases s <;> simp [UnpackedFloat.isFinite, UnpackedFloat.isNaN, units, Sign.apply]
  | zero s =>
    simp only [UnpackedFloat.isFinite, UnpackedFloat.isNaN, units, true_and, true_iff]
    omega
  | finite s m e hm =>
    have hlt := hx.1.magnitude_lt hx.2
    cases s <;>
      simp only [UnpackedFloat.isFinite, UnpackedFloat.isNaN, units, Sign.apply, true_and,
        true_iff] <;>
      omega

theorem value_sub {x y : Float} (hx : IsNumber x) (hy : IsNumber y) :
    (∃ s, x.toModel.unpack = .infinity s ∧ y.toModel.unpack = .infinity s) ∧ ¬ IsNumber (x - y) ∨
      IsNumber (x - y) ∧ value (x - y) = near (value x - value y) := by
  have h : (x - y).toModel.unpack =
    stored (UnpackedFloat.sub Format.binary64 x.toModel.unpack y.toModel.unpack) := rfl
  rcases hasUnits_sub (canonical x) (canonical y) hx hy with ⟨s, hxs, hys, hn⟩ | hn
  · refine .inl ⟨⟨s, hxs, hys⟩, ?_⟩
    rw [IsNumber, h, hn]
    decide
  · rw [← h] at hn
    exact .inr hn

theorem sub_eq_notANumber {u v : UnpackedFloat} (h : ¬ (u.isNaN = false ∧ v.isNaN = false)) :
    UnpackedFloat.sub Format.binary64 u v = .notANumber := by
  cases u <;> cases v <;> first | rfl | exact absurd ⟨rfl, rfl⟩ h

theorem number_of_number_sub {x y : Float} (h : IsNumber (x - y)) : IsNumber x ∧ IsNumber y := by
  have hsub : (x - y).toModel.unpack =
    stored (UnpackedFloat.sub Format.binary64 x.toModel.unpack y.toModel.unpack) := rfl
  by_contra hn
  rw [IsNumber, hsub, sub_eq_notANumber hn] at h
  exact absurd h (by decide)

theorem isFinite_of_number_sub {x y : Float} (h : IsNumber (x - y)) (he : value x = value y) :
    y.isFinite := by
  have hinf := infinite_eq
  have hbound := bound_pos
  have hsub : (x - y).toModel.unpack =
    stored (UnpackedFloat.sub Format.binary64 x.toModel.unpack y.toModel.unpack) := rfl
  have hy : y.isFinite = y.toModel.unpack.isFinite := rfl
  have hnumber := number_of_number_sub h
  have hx := canonical x
  rw [IsNumber, IsNumber] at hnumber
  rw [IsNumber, hsub] at h
  rw [value, value] at he
  rw [hy]
  generalize x.toModel.unpack = u at *
  generalize y.toModel.unpack = v at *
  cases v with
  | notANumber => cases hnumber.2
  | infinity t =>
    cases u with
    | notANumber => cases hnumber.1
    | infinity s =>
      cases s <;> cases t
      · cases h
      · simp only [units, Sign.apply] at he
        omega
      · simp only [units, Sign.apply] at he
        omega
      · cases h
    | zero s =>
      cases t <;> simp only [units, Sign.apply] at he <;> omega
    | finite s m e hm =>
      have hlt := hx.1.magnitude_lt hx.2
      cases s <;> cases t <;> simp only [units, Sign.apply] at he <;> omega
  | _ => rfl

theorem unpack_abs (x : Float) : x.abs.toModel.unpack = x.toModel.unpack.abs := by
  have hcanonical : Canonical x.toModel.unpack.abs := by
    have hx := canonical x
    generalize x.toModel.unpack = u at hx
    cases u <;> exact hx
  exact unpack_pack hcanonical

theorem value_abs (x : Float) : value x.abs = (value x).natAbs ∧ (IsNumber x → IsNumber x.abs) := by
  rw [value, value, IsNumber, IsNumber, unpack_abs]
  generalize x.toModel.unpack = u
  cases u with
  | infinity s => cases s <;> simp [UnpackedFloat.abs, units, Sign.apply, UnpackedFloat.isNaN]
  | finite s m e hm => cases s <;> simp [UnpackedFloat.abs, units, Sign.apply, UnpackedFloat.isNaN]
  | _ => exact ⟨rfl, id⟩

theorem number_of_number_abs {x : Float} (h : IsNumber x.abs) : IsNumber x := by
  rw [IsNumber, unpack_abs] at h
  rw [IsNumber]
  generalize x.toModel.unpack = u at h
  cases u with
  | notANumber => exact absurd h (by decide)
  | _ => rfl

theorem number_zero : IsNumber (Float.ofNat 0) := by decide

theorem value_zero : value (Float.ofNat 0) = 0 := by decide

theorem value_bounds (x : Float) : -infinite ≤ value x ∧ value x ≤ infinite := by
  have hinf := infinite_eq
  have hx := canonical x
  rw [value]
  generalize x.toModel.unpack = u at hx
  cases u with
  | notANumber =>
    simp only [units]
    omega
  | infinity s => cases s <;> simp only [units, Sign.apply] <;> omega
  | zero s =>
    simp only [units]
    omega
  | finite s m e hm =>
    have hlt := hx.1.magnitude_lt hx.2
    cases s <;> simp only [units, Sign.apply] <;> omega

theorem value_sub_of_isFinite {x y : Float} (hx : IsNumber x) (hy : IsNumber y)
    (h : x.isFinite ∨ y.isFinite) :
    IsNumber (x - y) ∧ value (x - y) = near (value x - value y) := by
  rcases value_sub hx hy with ⟨⟨s, hxs, hys⟩, -⟩ | hv
  · have hx' : x.isFinite = x.toModel.unpack.isFinite := rfl
    have hy' : y.isFinite = y.toModel.unpack.isFinite := rfl
    rw [hx', hy', hxs, hys] at h
    simp [UnpackedFloat.isFinite] at h
  · exact hv

theorem sub_mono_left {x y z : Float} (h : x ≤ y) (hz : IsNumber z)
    (hf : z.isFinite ∨ x.isFinite ∧ y.isFinite) : x - z ≤ y - z := by
  obtain ⟨hx, hy, h⟩ := le_iff.1 h
  obtain ⟨hxz, hv⟩ := value_sub_of_isFinite hx hz (hf.symm.imp_left And.left)
  obtain ⟨hyz, hw⟩ := value_sub_of_isFinite hy hz (hf.symm.imp_left And.right)
  refine le_iff.2 ⟨hxz, hyz, ?_⟩
  rw [hv, hw]
  exact near_mono (Int.sub_le_sub_right h _)

theorem sub_anti_right {x y z : Float} (h : x ≤ y) (hz : IsNumber z)
    (hf : z.isFinite ∨ x.isFinite ∧ y.isFinite) : z - y ≤ z - x := by
  obtain ⟨hx, hy, h⟩ := le_iff.1 h
  obtain ⟨hzx, hv⟩ := value_sub_of_isFinite hz hx (hf.imp_right And.left)
  obtain ⟨hzy, hw⟩ := value_sub_of_isFinite hz hy (hf.imp_right And.right)
  refine le_iff.2 ⟨hzy, hzx, ?_⟩
  rw [hv, hw]
  exact near_mono (Int.sub_le_sub_left h _)

end OrbitReplay.Binary64

namespace OrbitReplay

open Binary64

instance : Scalar.Ordered Float where
  beq_symm h := by
    obtain ⟨hx, hy, h⟩ := beq_iff.1 h
    exact beq_iff.2 ⟨hy, hx, h.symm⟩
  beq_trans h h' := by
    obtain ⟨hx, -, h⟩ := beq_iff.1 h
    obtain ⟨-, hz, h'⟩ := beq_iff.1 h'
    exact beq_iff.2 ⟨hx, hz, h.trans h'⟩
  lt_irrefl x h := (lt_iff.1 h).2.2.ne rfl
  lt_trans h h' := by
    obtain ⟨hx, -, h⟩ := lt_iff.1 h
    obtain ⟨-, hz, h'⟩ := lt_iff.1 h'
    exact lt_iff.2 ⟨hx, hz, h.trans h'⟩
  lt_of_beq_of_lt h h' := by
    obtain ⟨hx, -, h⟩ := beq_iff.1 h
    obtain ⟨-, hz, h'⟩ := lt_iff.1 h'
    exact lt_iff.2 ⟨hx, hz, h.trans_lt h'⟩
  lt_of_lt_of_beq h h' := by
    obtain ⟨hx, -, h⟩ := lt_iff.1 h
    obtain ⟨-, hz, h'⟩ := beq_iff.1 h'
    exact lt_iff.2 ⟨hx, hz, h.trans_eq h'⟩
  le_iff := by
    intro x y
    simp only [← and_or_left, le_iff, lt_iff, beq_iff, le_iff_lt_or_eq]
  trichotomy := by
    intro x y hx hy
    have hx' := (beq_iff.1 hx).1
    have hy' := (beq_iff.1 hy).1
    rcases lt_trichotomy (value x) (value y) with h | h | h
    · exact .inl (lt_iff.2 ⟨hx', hy', h⟩)
    · exact .inr (.inl (beq_iff.2 ⟨hx', hy', h⟩))
    · exact .inr (.inr (lt_iff.2 ⟨hy', hx', h⟩))
  number_of_lt h := by
    obtain ⟨hx, hy, -⟩ := lt_iff.1 h
    exact ⟨beq_iff.2 ⟨hx, hx, rfl⟩, beq_iff.2 ⟨hy, hy, rfl⟩⟩
  number_of_isFinite h := by
    have hx := (isFinite_iff.1 h).1
    exact beq_iff.2 ⟨hx, hx, rfl⟩
  isFinite_of_between := by
    intro x y z h h'
    obtain ⟨-, hy, h⟩ := lt_iff.1 h
    obtain ⟨-, -, h'⟩ := lt_iff.1 h'
    exact isFinite_iff.2 ⟨hy, (value_bounds x).1.trans_lt h, h'.trans_le (value_bounds z).2⟩

instance : Scalar.Subtractive Float where
  sub_le_sub_right hz h := sub_mono_left h (isFinite_iff.1 hz).1 (.inl hz)
  sub_le_sub_left hz h := sub_anti_right h (isFinite_iff.1 hz).1 (.inl hz)
  sub_beq_zero_iff := by
    intro x y
    refine ⟨fun h ↦ ?_, fun ⟨h, hy⟩ ↦ ?_⟩
    · obtain ⟨hn, -, h⟩ := beq_iff.1 h
      obtain ⟨hx, hy⟩ := number_of_number_sub hn
      rcases value_sub hx hy with ⟨-, hn'⟩ | ⟨-, hv⟩
      · exact absurd hn hn'
      have he : value x = value y := by
        have := near_eq_zero (hv.symm.trans (h.trans value_zero))
        omega
      exact ⟨beq_iff.2 ⟨hx, hy, he⟩, isFinite_of_number_sub hn he⟩
    · obtain ⟨hx, hy', he⟩ := beq_iff.1 h
      obtain ⟨hn, hv⟩ := value_sub_of_isFinite hx hy' (.inr hy)
      refine beq_iff.2 ⟨hn, number_zero, ?_⟩
      rw [hv, he, Int.sub_self, near_zero]
      exact value_zero.symm
  abs_of_nonneg := by
    intro x h
    obtain ⟨-, hx, h⟩ := le_iff.1 h
    obtain ⟨hv, hn⟩ := value_abs x
    refine beq_iff.2 ⟨hn hx, hx, ?_⟩
    have h0 : 0 ≤ value x := value_zero.symm.trans_le h
    exact hv.trans (Int.natAbs_of_nonneg h0)

instance : Scalar.Absorbing Float where
  number_of_distance := by
    intro x y h
    obtain ⟨hx, hy⟩ := number_of_number_sub (number_of_number_abs (beq_iff.1 h).1)
    exact ⟨beq_iff.2 ⟨hx, hx, rfl⟩, beq_iff.2 ⟨hy, hy, rfl⟩⟩

instance : Scalar.Extended Float where
  sub_le_sub_right_of_finite hx hy hz h := sub_mono_left h (beq_iff.1 hz).1 (.inr ⟨hx, hy⟩)
  sub_le_sub_left_of_finite hx hy hz h := sub_anti_right h (beq_iff.1 hz).1 (.inr ⟨hx, hy⟩)

end OrbitReplay
