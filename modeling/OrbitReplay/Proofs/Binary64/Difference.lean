import OrbitReplay.Proofs.Binary64.Packing

namespace OrbitReplay.Binary64

open Float.Model Float.Model.UnpackedFloat

def clip (n : Nat) : Nat := if n < bound then n else infinite

def near (n : Int) : Int := if 0 ≤ n then clip (rounded n.toNat) else -clip (rounded (-n).toNat)

theorem clip_mono {n m : Nat} (h : n ≤ m) : clip n ≤ clip m := by
  have hinf := infinite_eq
  unfold clip
  split <;> split <;> omega

theorem clip_pos {n : Nat} (h : 0 < n) : 0 < clip n := by
  have hbound := bound_pos
  have hinf := infinite_eq
  unfold clip
  split <;> omega

theorem near_zero : near 0 = 0 := by
  simp [near, rounded_zero, clip, bound_pos]

theorem near_natCast (n : Nat) : near n = clip (rounded n) := by
  rw [near, if_pos (Int.natCast_nonneg n), Int.toNat_natCast]

theorem near_neg (n : Int) : near (-n) = -near n := by
  rcases Int.lt_trichotomy n 0 with h | rfl | h
  · rw [near, near, if_pos (by omega), if_neg (by omega), Int.neg_neg]
  · rw [Int.neg_zero, near_zero, Int.neg_zero]
  · rw [near, near, if_neg (by omega), if_pos (by omega), Int.neg_neg]

theorem near_apply (s : Sign) (n : Nat) : near (s.apply n) = s.apply (clip (rounded n)) := by
  cases s
  · simp only [Sign.apply, near_neg, near_natCast]
  · simp only [Sign.apply, near_natCast]

theorem near_mono {n m : Int} (h : n ≤ m) : near n ≤ near m := by
  unfold near
  split <;> split
  · exact Int.ofNat_le.2 (clip_mono (rounded_mono (by omega)))
  · omega
  · omega
  · have := clip_mono (rounded_mono (by omega : (-m).toNat ≤ (-n).toNat))
    omega

theorem near_eq_zero {n : Int} (h : near n = 0) : n = 0 := by
  rcases Int.lt_trichotomy n 0 with hlt | rfl | hgt
  · rw [near, if_neg (by omega)] at h
    have := clip_pos (rounded_pos (by omega : (-n).toNat ≠ 0))
    omega
  · rfl
  · rw [near, if_pos (by omega)] at h
    have := clip_pos (rounded_pos (by omega : n.toNat ≠ 0))
    omega

theorem near_of_le {n : Int} (h : bound ≤ n) : near n = infinite := by
  have hn : 0 ≤ n := by omega
  have hle : bound ≤ rounded n.toNat := by
    calc bound
      _ = rounded bound := rounded_bound.symm
      _ ≤ rounded n.toNat := rounded_mono (by omega)
  rw [near, if_pos hn, clip, if_neg (Nat.not_lt.2 hle)]

theorem near_of_le_neg {n : Int} (h : n ≤ -bound) : near n = -infinite := by
  have hneg := near_of_le (n := -n) (by omega)
  rw [near_neg] at hneg
  omega

theorem near_units_finite (s : Sign) {m : Nat} {e : Int} (hm : 0 < m)
    (h : Canonical (.finite s m e hm)) :
    near (s.apply (magnitude m e)) = s.apply (magnitude m e) := by
  have hr : rounded (magnitude m e) = magnitude m e := rounded_of_exact h.1.lt_two_pow _
  rw [near_apply, hr, clip, if_pos (h.1.magnitude_lt h.2)]

theorem apply_neg (s : Sign) (n : Int) : (-s).apply n = -s.apply n := by
  cases s
  · exact (Int.neg_neg n).symm
  · rfl

def stored (u : UnpackedFloat) : UnpackedFloat :=
  UnpackedFloat.unpack Format.binary64 (UnpackedFloat.pack Format.binary64 u)

def HasUnits (u : UnpackedFloat) (n : Int) : Prop := u.isNaN = false ∧ units u = n

theorem hasUnits_stored {u : UnpackedFloat} (h : Canonical u) (hn : u.isNaN = false) {n : Int}
    (hu : units u = n) : HasUnits (stored u) n := by
  rw [stored, unpack_pack h]
  exact ⟨hn, hu⟩

theorem hasUnits_zero (s : Sign) : HasUnits (stored (.zero s)) 0 :=
  hasUnits_stored (u := .zero s) trivial rfl rfl

theorem hasUnits_top {n : Int} (h : bound ≤ n) :
    HasUnits (stored (.infinity .positive)) (near n) := by
  rw [near_of_le h]
  exact hasUnits_stored (u := .infinity .positive) trivial rfl rfl

theorem hasUnits_bottom {n : Int} (h : n ≤ -bound) :
    HasUnits (stored (.infinity .negative)) (near n) := by
  rw [near_of_le_neg h]
  exact hasUnits_stored (u := .infinity .negative) trivial rfl rfl

theorem hasUnits_round (s : Sign) {m : Nat} {e : Int} (hm : 0 < m) (he : -1074 ≤ e) :
    HasUnits (stored (UnpackedFloat.round Format.binary64 s m e))
      (near (s.apply (magnitude m e))) := by
  obtain ⟨m', e', hm', hround, hshape, hvalue⟩ := round_eq s hm he
  rw [hround, stored, unpack_pack_finite s hm' hshape, near_apply, ← hvalue]
  by_cases hle : e' ≤ 971
  · rw [if_pos hle, clip, if_pos (hshape.magnitude_lt hle)]
    exact ⟨rfl, rfl⟩
  · rw [if_neg hle, clip, if_neg (Nat.not_lt.2 (hshape.le_magnitude (by omega)))]
    exact ⟨rfl, rfl⟩

theorem hasUnits_normalize (n : Int) {e : Int} (he : -1074 ≤ e) :
    HasUnits (stored (UnpackedFloat.normalize Format.binary64 n e .positive))
      (near (n * (2 ^ (e + 1074).toNat : Nat))) := by
  rcases Int.lt_trichotomy n 0 with h | rfl | h
  · have hr := hasUnits_round .negative (by omega : 0 < (-n).toNat) he
    have hn : Sign.negative.apply (magnitude (-n).toNat e) = n * (2 ^ (e + 1074).toNat : Nat) := by
      rw [Sign.apply, magnitude, Int.natCast_mul, Int.toNat_of_nonneg (by omega), Int.neg_mul,
        Int.neg_neg]
    rw [UnpackedFloat.normalize, compare_lt_iff_lt.2 h, ← hn]
    exact hr
  · rw [Int.zero_mul, near_zero]
    exact hasUnits_zero .positive
  · have hr := hasUnits_round .positive (by omega : 0 < n.toNat) he
    have hn : Sign.positive.apply (magnitude n.toNat e) = n * (2 ^ (e + 1074).toNat : Nat) := by
      rw [Sign.apply, magnitude, Int.natCast_mul, Int.toNat_of_nonneg (by omega)]
    rw [UnpackedFloat.normalize, compare_gt_iff_gt.2 h, ← hn]
    exact hr

theorem apply_align (s : Sign) (m : Nat) {e t : Int} (ht : -1074 ≤ t) (hle : t ≤ e) :
    s.apply (decreaseExponent m e t).1 * (2 ^ (t + 1074).toNat : Nat) =
      s.apply (magnitude m e) := by
  obtain ⟨i, rfl⟩ : ∃ i : Nat, e = t + i := ⟨(e - t).toNat, by omega⟩
  have hi : (t + i - t).toNat = i := by omega
  rw [magnitude_add ht, magnitude, decreaseExponent, hi, Nat.shiftLeft_eq]
  cases s
  · simp only [Sign.apply, Int.natCast_mul, Int.neg_mul]
  · simp only [Sign.apply, Int.natCast_mul]

theorem hasUnits_sub_finite (s t : Sign) {m n : Nat} {e f : Int} (hm : 0 < m) (hn : 0 < n)
    (he : -1074 ≤ e) (hf : -1074 ≤ f) :
    HasUnits (stored (UnpackedFloat.sub Format.binary64 (.finite s m e hm) (.finite t n f hn)))
      (near (s.apply (magnitude m e) - t.apply (magnitude n f))) := by
  have hlow : -1074 ≤ min e f := by omega
  rw [← apply_align s m hlow (Int.min_le_left e f), ← apply_align t n hlow (Int.min_le_right e f),
    ← Int.sub_mul]
  exact hasUnits_normalize _ hlow

/-- Only equal infinities have no difference. -/
theorem hasUnits_sub {x y : UnpackedFloat} (hx : Canonical x) (hy : Canonical y)
    (hx' : x.isNaN = false) (hy' : y.isNaN = false) :
    (∃ s, x = .infinity s ∧ y = .infinity s ∧ UnpackedFloat.sub Format.binary64 x y = .notANumber) ∨
      HasUnits (stored (UnpackedFloat.sub Format.binary64 x y)) (near (units x - units y)) := by
  have hinf := infinite_eq
  have hbound := bound_pos
  cases x with
  | notANumber => cases hx'
  | infinity s =>
    cases y with
    | notANumber => cases hy'
    | infinity t =>
      cases s <;> cases t
      · exact .inl ⟨_, rfl, rfl, rfl⟩
      · exact .inr (hasUnits_bottom (by simp only [units, Sign.apply]; omega))
      · exact .inr (hasUnits_top (by simp only [units, Sign.apply]; omega))
      · exact .inl ⟨_, rfl, rfl, rfl⟩
    | zero t =>
      cases s
      · exact .inr (hasUnits_bottom (by simp only [units, Sign.apply]; omega))
      · exact .inr (hasUnits_top (by simp only [units, Sign.apply]; omega))
    | finite t n f hn =>
      have := hy.1.magnitude_lt hy.2
      cases s
      · exact .inr (hasUnits_bottom (by cases t <;> simp only [units, Sign.apply] <;> omega))
      · exact .inr (hasUnits_top (by cases t <;> simp only [units, Sign.apply] <;> omega))
  | zero s =>
    cases y with
    | notANumber => cases hy'
    | infinity t =>
      cases t
      · exact .inr (hasUnits_top (by simp only [units, Sign.apply]; omega))
      · exact .inr (hasUnits_bottom (by simp only [units, Sign.apply]; omega))
    | zero t =>
      refine .inr ?_
      have h0 : near (units (.zero s) - units (.zero t)) = 0 := near_zero
      rw [h0]
      cases s <;> cases t <;> exact hasUnits_zero _
    | finite t n f hn =>
      refine .inr ?_
      have hu : units (.zero s) - units (.finite t n f hn) = (-t).apply (magnitude n f) := by
        rw [apply_neg]
        exact Int.zero_sub _
      rw [hu, near_units_finite (-t) hn hy]
      exact hasUnits_stored (u := .finite (-t) n f hn) hy rfl rfl
  | finite s m e hm =>
    have hlt := hx.1.magnitude_lt hx.2
    cases y with
    | notANumber => cases hy'
    | infinity t =>
      cases t
      · exact .inr (hasUnits_top (by cases s <;> simp only [units, Sign.apply] <;> omega))
      · exact .inr (hasUnits_bottom (by cases s <;> simp only [units, Sign.apply] <;> omega))
    | zero t =>
      refine .inr ?_
      have hu : units (.finite s m e hm) - units (.zero t) = s.apply (magnitude m e) :=
        Int.sub_zero _
      rw [hu, near_units_finite s hm hx]
      exact hasUnits_stored (u := .finite s m e hm) hx rfl rfl
    | finite t n f hn => exact .inr (hasUnits_sub_finite s t hm hn hx.1.low hy.1.low)

end OrbitReplay.Binary64
