import Mathlib.Order.Compare
import OrbitReplay.Proofs.Binary64.Rounding

namespace OrbitReplay.Binary64

open Float.Model Float.Model.UnpackedFloat

def Canonical : UnpackedFloat → Prop
  | .finite _ m e _ => Shape m e ∧ e ≤ 971
  | _ => True

def width : Nat := 2098

/-- The least value that is too great for the format. It is kept from being computed. -/
@[irreducible]
def bound : Nat := 2 ^ width

@[irreducible]
def infinite : Nat := 2 * bound

theorem infinite_eq : infinite = 2 * bound := by
  unfold infinite
  rfl

theorem bound_pos : 0 < bound := by
  unfold bound
  exact Nat.two_pow_pos width

theorem rounded_bound : rounded bound = bound := by
  have h := rounded_of_exact (by decide : 1 < 2 ^ 53) width
  rw [Nat.one_mul] at h
  unfold bound
  exact h

def units : UnpackedFloat → Int
  | .infinity s => s.apply infinite
  | .finite s m e _ => s.apply (magnitude m e)
  | _ => 0

theorem magnitude_pos {m : Nat} (e : Int) (hm : 0 < m) : 0 < magnitude m e :=
  Nat.pos_of_ne_zero (magnitude_ne_zero e hm)

theorem Shape.magnitude_lt_two_pow {m : Nat} {e : Int} (h : Shape m e) :
    magnitude m e < 2 ^ (53 + (e + 1074).toNat) := by
  rw [magnitude, Nat.pow_add]
  exact Nat.mul_lt_mul_of_pos_right h.lt_two_pow (Nat.two_pow_pos _)

theorem two_pow_le_magnitude {m : Nat} (e : Int) (hm : 2 ^ 52 ≤ m) :
    2 ^ (52 + (e + 1074).toNat) ≤ magnitude m e := by
  rw [magnitude, Nat.pow_add]
  exact Nat.mul_le_mul_right _ hm

theorem Shape.magnitude_lt {m : Nat} {e : Int} (h : Shape m e) (he : e ≤ 971) :
    magnitude m e < bound := by
  have hw : width = 2098 := rfl
  unfold bound
  calc magnitude m e
    _ < 2 ^ (53 + (e + 1074).toNat) := h.magnitude_lt_two_pow
    _ ≤ 2 ^ width := Nat.pow_le_pow_right (by decide) (by omega)

theorem Shape.le_magnitude {m : Nat} {e : Int} (h : Shape m e) (he : 972 ≤ e) :
    bound ≤ magnitude m e := by
  have hw : width = 2098 := rfl
  unfold bound
  have hm : 2 ^ 52 ≤ m := h.normal.resolve_right (by omega)
  calc 2 ^ width
    _ ≤ 2 ^ (52 + (e + 1074).toNat) := Nat.pow_le_pow_right (by decide) (by omega)
    _ ≤ magnitude m e := two_pow_le_magnitude e hm

/-- A greater exponent wins, since the mantissa is at least half of what it can be. -/
theorem Shape.magnitude_lt_magnitude {m n : Nat} {e f : Int} (h : Shape m e) (h' : Shape n f)
    (hlt : e < f) : magnitude m e < magnitude n f := by
  have hlow := h.low
  have hexp : (f + 1074).toNat = (f - e - 1).toNat + 1 + (e + 1074).toNat := by omega
  have hn : 2 ^ 52 ≤ n := h'.normal.resolve_right (by omega)
  calc magnitude m e
    _ < 2 ^ (53 + (e + 1074).toNat) := h.magnitude_lt_two_pow
    _ ≤ 2 ^ (52 + (f + 1074).toNat) := Nat.pow_le_pow_right (by decide) (by omega)
    _ ≤ magnitude n f := two_pow_le_magnitude f hn

theorem compare_magnitude {m n : Nat} {e f : Int} (h : Shape m e) (h' : Shape n f) :
    compare (magnitude m e) (magnitude n f) = (compare e f).then (compare m n) := by
  rcases lt_trichotomy e f with hlt | rfl | hgt
  · rw [compare_lt_iff_lt.2 hlt, compare_lt_iff_lt.2 (h.magnitude_lt_magnitude h' hlt)]
    rfl
  · have hpos : 0 < 2 ^ (e + 1074).toNat := Nat.two_pow_pos _
    rw [compare_eq_iff_eq.2 rfl, magnitude, magnitude]
    rcases lt_trichotomy m n with hlt | rfl | hgt
    · rw [compare_lt_iff_lt.2 hlt, compare_lt_iff_lt.2 (Nat.mul_lt_mul_of_pos_right hlt hpos)]
      rfl
    · rw [compare_eq_iff_eq.2 rfl, compare_eq_iff_eq.2 rfl]
      rfl
    · rw [compare_gt_iff_gt.2 hgt, compare_gt_iff_gt.2 (Nat.mul_lt_mul_of_pos_right hgt hpos)]
      rfl
  · rw [compare_gt_iff_gt.2 hgt, compare_gt_iff_gt.2 (h'.magnitude_lt_magnitude h hgt)]
    rfl

theorem compare_natCast (m n : Nat) : compare (m : Int) (n : Int) = compare m n := by
  rcases lt_trichotomy m n with hlt | rfl | hgt
  · rw [compare_lt_iff_lt.2 hlt, compare_lt_iff_lt.2 (by omega)]
  · rw [compare_eq_iff_eq.2 rfl, compare_eq_iff_eq.2 rfl]
  · rw [compare_gt_iff_gt.2 hgt, compare_gt_iff_gt.2 (by omega)]

theorem compare_neg_natCast (m n : Nat) :
    compare (-(m : Int)) (-(n : Int)) = (compare m n).swap := by
  rcases lt_trichotomy m n with hlt | rfl | hgt
  · rw [compare_lt_iff_lt.2 hlt, compare_gt_iff_gt.2 (by omega)]
    rfl
  · rw [compare_eq_iff_eq.2 rfl, compare_eq_iff_eq.2 rfl]
    rfl
  · rw [compare_gt_iff_gt.2 hgt, compare_lt_iff_lt.2 (by omega)]
    rfl

/-- Unless one of them is not a number, two canonical floats compare as their values. -/
theorem compare_units {x y : UnpackedFloat} (hx : Canonical x) (hy : Canonical y)
    (hx' : x.isNaN = false) (hy' : y.isNaN = false) :
    x.compare y = some (compare (units x) (units y)) := by
  have hinf := infinite_eq
  have hbound := bound_pos
  have lt {a b : Int} (h : a < b) : some Ordering.lt = some (compare a b) := by
    rw [compare_lt_iff_lt.2 h]
  have gt {a b : Int} (h : b < a) : some Ordering.gt = some (compare a b) := by
    rw [compare_gt_iff_gt.2 h]
  have eq (a : Int) : some Ordering.eq = some (compare a a) := by rw [compare_eq_iff_eq.2 rfl]
  cases x with
  | notANumber => cases hx'
  | infinity s =>
    cases y with
    | notANumber => cases hy'
    | infinity t =>
      cases s <;> cases t
      · exact eq _
      · exact lt (by simp only [units, Sign.apply]; omega)
      · exact gt (by simp only [units, Sign.apply]; omega)
      · exact eq _
    | zero t =>
      cases s
      · exact lt (by simp only [units, Sign.apply]; omega)
      · exact gt (by simp only [units, Sign.apply]; omega)
    | finite t m e hm =>
      have := hy.1.magnitude_lt hy.2
      cases s <;> cases t
      · exact lt (by simp only [units, Sign.apply]; omega)
      · exact lt (by simp only [units, Sign.apply]; omega)
      · exact gt (by simp only [units, Sign.apply]; omega)
      · exact gt (by simp only [units, Sign.apply]; omega)
  | zero s =>
    cases y with
    | notANumber => cases hy'
    | infinity t =>
      cases t
      · exact gt (by simp only [units, Sign.apply]; omega)
      · exact lt (by simp only [units, Sign.apply]; omega)
    | zero t => exact eq _
    | finite t m e hm =>
      have := magnitude_pos e hm
      cases t
      · exact gt (by simp only [units, Sign.apply]; omega)
      · exact lt (by simp only [units, Sign.apply]; omega)
  | finite s m e hm =>
    have hpos := magnitude_pos e hm
    have hlt := hx.1.magnitude_lt hx.2
    cases y with
    | notANumber => cases hy'
    | infinity t =>
      cases t
      · cases s <;> exact gt (by simp only [units, Sign.apply]; omega)
      · cases s <;> exact lt (by simp only [units, Sign.apply]; omega)
    | zero t =>
      cases s
      · exact lt (by simp only [units, Sign.apply]; omega)
      · exact gt (by simp only [units, Sign.apply]; omega)
    | finite t n f hn =>
      have hpos' := magnitude_pos f hn
      have hcompare := compare_magnitude hx.1 hy.1
      cases s <;> cases t
      · simp only [UnpackedFloat.compare, units, Sign.apply, compare_neg_natCast, hcompare]
      · exact lt (by simp only [units, Sign.apply]; omega)
      · exact gt (by simp only [units, Sign.apply]; omega)
      · simp only [UnpackedFloat.compare, units, Sign.apply, compare_natCast, hcompare]

end OrbitReplay.Binary64
