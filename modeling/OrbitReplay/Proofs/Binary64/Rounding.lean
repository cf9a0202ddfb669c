import Mathlib

namespace OrbitReplay.Binary64

/-- The multiple of a power of two that is nearest to a number, the even one of two, divided by that
power. -/
def nearest (n k : Nat) : Nat :=
  if 2 * (n % 2 ^ k) < 2 ^ k then n / 2 ^ k
  else if 2 * (n % 2 ^ k) = 2 ^ k then n / 2 ^ k + n / 2 ^ k % 2
  else n / 2 ^ k + 1

def rounded (n : Nat) : Nat := nearest n (n.log2 - 52) * 2 ^ (n.log2 - 52)

theorem div_le_nearest (n k : Nat) : n / 2 ^ k ≤ nearest n k := by
  unfold nearest
  split
  · exact Nat.le_refl _
  · split <;> omega

theorem nearest_le (n k : Nat) : nearest n k ≤ n / 2 ^ k + 1 := by
  unfold nearest
  split
  · omega
  · split <;> omega

theorem nearest_mono {n m k : Nat} (h : n ≤ m) : nearest n k ≤ nearest m k := by
  have hq : n / 2 ^ k ≤ m / 2 ^ k := Nat.div_le_div_right h
  rcases Nat.lt_or_eq_of_le hq with hlt | he
  · exact (nearest_le n k).trans (Nat.le_trans hlt (div_le_nearest m k))
  · have hn := Nat.div_add_mod n (2 ^ k)
    have hm := Nat.div_add_mod m (2 ^ k)
    rw [he] at hn
    have hr : n % 2 ^ k ≤ m % 2 ^ k := by omega
    simp only [nearest, he]
    split <;> split <;> (try split) <;> (try split) <;> omega

theorem nearest_of_exact (a k : Nat) : nearest (a * 2 ^ k) k = a := by
  have hpos : 0 < 2 ^ k := Nat.two_pow_pos k
  rw [nearest, Nat.mul_mod_left, if_pos (by omega), Nat.mul_div_cancel _ hpos]

theorem nearest_scale (n i j : Nat) : nearest (n * 2 ^ j) (i + j) = nearest n i := by
  have hpos : 0 < 2 ^ j := Nat.two_pow_pos j
  have hdiv : n * 2 ^ j / 2 ^ (i + j) = n / 2 ^ i := by
    rw [Nat.pow_add, Nat.mul_div_mul_right _ _ hpos]
  have hmod : n * 2 ^ j % 2 ^ (i + j) = n % 2 ^ i * 2 ^ j := by
    rw [Nat.pow_add, Nat.mul_mod_mul_right]
  have hlt : 2 * (n % 2 ^ i * 2 ^ j) < 2 ^ (i + j) ↔ 2 * (n % 2 ^ i) < 2 ^ i := by
    rw [Nat.pow_add, ← Nat.mul_assoc, Nat.mul_lt_mul_right hpos]
  have heq : 2 * (n % 2 ^ i * 2 ^ j) = 2 ^ (i + j) ↔ 2 * (n % 2 ^ i) = 2 ^ i := by
    rw [Nat.pow_add, ← Nat.mul_assoc, Nat.mul_left_inj hpos.ne']
  simp only [nearest, hdiv, hmod, hlt, heq]

theorem nearest_zero (n : Nat) : nearest n 0 = n := by
  have h := nearest_of_exact n 0
  rwa [Nat.pow_zero, Nat.mul_one] at h

theorem nearest_error (n k : Nat) :
    2 * (nearest n k * 2 ^ k) ≤ 2 * n + 2 ^ k ∧ 2 * n ≤ 2 * (nearest n k * 2 ^ k) + 2 ^ k := by
  have hn : 2 ^ k * (n / 2 ^ k) + n % 2 ^ k = n := Nat.div_add_mod n (2 ^ k)
  have hlt : n % 2 ^ k < 2 ^ k := Nat.mod_lt _ (Nat.two_pow_pos k)
  rw [Nat.mul_comm (nearest n k)]
  unfold nearest
  split
  · omega
  split
  · rcases Nat.mod_two_eq_zero_or_one (n / 2 ^ k) with hb | hb
    · rw [hb, Nat.add_zero]
      omega
    · rw [hb, Nat.mul_succ]
      omega
  · rw [Nat.mul_succ]
    omega

theorem log2_mul_two_pow {m : Nat} (hm : 0 < m) (i : Nat) : (m * 2 ^ i).log2 = m.log2 + i := by
  have hm' : 0 < m * 2 ^ i := Nat.mul_pos hm (Nat.two_pow_pos i)
  rw [Nat.log2_eq_iff hm'.ne', Nat.add_right_comm, Nat.pow_add, Nat.pow_add]
  exact ⟨Nat.mul_le_mul_right _ (Nat.log2_self_le hm.ne'),
    Nat.mul_lt_mul_of_pos_right Nat.lt_log2_self (Nat.two_pow_pos i)⟩

theorem rounded_of_exact {a : Nat} (ha : a < 2 ^ 53) (j : Nat) :
    rounded (a * 2 ^ j) = a * 2 ^ j := by
  rcases Nat.eq_zero_or_pos a with rfl | hpos
  · simp [rounded, nearest]
  have hlog : a.log2 < 53 := (Nat.log2_lt hpos.ne').2 ha
  have hscale := log2_mul_two_pow hpos j
  obtain ⟨i, hi⟩ : ∃ i, j = i + ((a * 2 ^ j).log2 - 52) := ⟨j - ((a * 2 ^ j).log2 - 52), by omega⟩
  have hsplit : a * 2 ^ j = a * 2 ^ i * 2 ^ ((a * 2 ^ j).log2 - 52) := by
    rw [Nat.mul_assoc, ← Nat.pow_add, ← hi]
  rw [rounded]
  generalize (a * 2 ^ j).log2 - 52 = k at hsplit ⊢
  rw [hsplit, nearest_of_exact]

theorem two_pow_le_rounded {n : Nat} (h : n ≠ 0) : 2 ^ n.log2 ≤ rounded n := by
  obtain ⟨i, hi⟩ : ∃ i, n.log2 = i + (n.log2 - 52) := ⟨n.log2 - (n.log2 - 52), by omega⟩
  have hle : 2 ^ i * 2 ^ (n.log2 - 52) ≤ n := by
    rw [← Nat.pow_add, ← hi]
    exact Nat.log2_self_le h
  have hn := nearest_mono (k := n.log2 - 52) hle
  rw [nearest_of_exact] at hn
  calc 2 ^ n.log2
    _ = 2 ^ i * 2 ^ (n.log2 - 52) := by rw [← Nat.pow_add, ← hi]
    _ ≤ rounded n := Nat.mul_le_mul_right _ hn

theorem rounded_le_two_pow (n : Nat) : rounded n ≤ 2 ^ (n.log2 + 1) := by
  obtain ⟨i, hi⟩ : ∃ i, n.log2 + 1 = i + (n.log2 - 52) := ⟨n.log2 + 1 - (n.log2 - 52), by omega⟩
  have hle : n ≤ 2 ^ i * 2 ^ (n.log2 - 52) := by
    rw [← Nat.pow_add, ← hi]
    exact Nat.lt_log2_self.le
  have hn := nearest_mono (k := n.log2 - 52) hle
  rw [nearest_of_exact] at hn
  calc rounded n
    _ ≤ 2 ^ i * 2 ^ (n.log2 - 52) := Nat.mul_le_mul_right _ hn
    _ = 2 ^ (n.log2 + 1) := by rw [← Nat.pow_add, ← hi]

theorem rounded_zero : rounded 0 = 0 := by simp [rounded, nearest]

theorem rounded_pos {n : Nat} (h : n ≠ 0) : 0 < rounded n :=
  (Nat.two_pow_pos _).trans_le (two_pow_le_rounded h)

theorem rounded_mono {n m : Nat} (h : n ≤ m) : rounded n ≤ rounded m := by
  rcases Nat.eq_zero_or_pos n with rfl | hpos
  · rw [rounded_zero]
    exact Nat.zero_le _
  have hn : n ≠ 0 := hpos.ne'
  have hm : m ≠ 0 := (hpos.trans_le h).ne'
  have hlog : n.log2 ≤ m.log2 := (Nat.le_log2 hm).2 ((Nat.log2_self_le hn).trans h)
  rcases Nat.lt_or_eq_of_le hlog with hlt | he
  · calc rounded n
      _ ≤ 2 ^ (n.log2 + 1) := rounded_le_two_pow n
      _ ≤ 2 ^ m.log2 := Nat.pow_le_pow_right (by decide) hlt
      _ ≤ rounded m := two_pow_le_rounded hm
  · rw [rounded, rounded, he]
    exact Nat.mul_le_mul_right _ (nearest_mono h)

/-- The relative error is at most half a unit in the last of 53 places. -/
theorem rounded_error (n : Nat) :
    2 ^ 53 * rounded n ≤ 2 ^ 53 * n + n ∧ 2 ^ 53 * n ≤ 2 ^ 53 * rounded n + n := by
  obtain ⟨k, hk⟩ : ∃ k, n.log2 - 52 = k := ⟨_, rfl⟩
  obtain ⟨hup, hdown⟩ := nearest_error n k
  rw [rounded, hk]
  rcases Nat.eq_zero_or_pos k with rfl | hpos
  · rw [nearest_zero, Nat.pow_zero, Nat.mul_one]
    omega
  · have hn : n ≠ 0 := by
      rintro rfl
      rw [Nat.log2_zero] at hk
      omega
    have hpow : 2 ^ 52 * 2 ^ k ≤ n := by
      rw [← Nat.pow_add, ← hk, Nat.add_sub_cancel' (by omega)]
      exact Nat.log2_self_le hn
    omega
section Shift

open Float.Model Float.Model.UnpackedFloat

/-- The residual bits say on which side of the middle the rest lies. -/
structure Shifted (n k : Nat) (em : ExtendedMantissa) : Prop where
  mantissa : em.mantissa = n / 2 ^ k
  roundBit : em.roundBit = true ↔ 2 ^ k ≤ 2 * (n % 2 ^ k)
  stickyBit : em.stickyBit = true ↔ n % 2 ^ k ≠ 0 ∧ 2 * (n % 2 ^ k) ≠ 2 ^ k

theorem Shifted.step {n k : Nat} {em : ExtendedMantissa} (h : Shifted n k em) :
    Shifted n (k + 1) em.shiftRightOne := by
  have hpos : 0 < 2 ^ k := Nat.two_pow_pos k
  have hpow : 2 ^ (k + 1) = 2 ^ k + 2 ^ k := by rw [Nat.pow_succ, Nat.mul_two]
  have hmod : n % 2 ^ (k + 1) = n % 2 ^ k + 2 ^ k * (n / 2 ^ k % 2) := by
    rw [Nat.pow_succ, Nat.mod_mul]
  have hlt : n % 2 ^ k < 2 ^ k := Nat.mod_lt _ hpos
  refine ⟨?_, ?_, ?_⟩
  · rw [ExtendedMantissa.shiftRightOne, h.mantissa, Nat.div_div_eq_div_mul, Nat.pow_succ]
  · simp only [ExtendedMantissa.shiftRightOne, h.mantissa, bne_iff_ne, ne_eq]
    rcases Nat.mod_two_eq_zero_or_one (n / 2 ^ k) with hb | hb <;> rw [hb] at hmod ⊢ <;> omega
  · simp only [ExtendedMantissa.shiftRightOne, Bool.or_eq_true, h.roundBit, h.stickyBit]
    rcases Nat.mod_two_eq_zero_or_one (n / 2 ^ k) with hb | hb <;> rw [hb] at hmod <;> omega

theorem shifted_shiftRight (n k : Nat) :
    Shifted n k (ExtendedMantissa.ofMantissaAndAccuracy n .exact >>> k) := by
  induction k with
  | zero =>
    have hs : ExtendedMantissa.ofMantissaAndAccuracy n .exact >>> 0 = ⟨n, false, false⟩ := rfl
    rw [hs]
    exact ⟨by simp, by simp [Nat.mod_one], by simp [Nat.mod_one]⟩
  | succ k ih => exact ih.step

theorem Shifted.roundedMantissa {n k : Nat} {em : ExtendedMantissa} (h : Shifted n k em) :
    em.roundedMantissa = nearest n k := by
  obtain ⟨m, r, s⟩ := em
  obtain ⟨hm, hr, hs⟩ := h
  have hpos : 0 < 2 ^ k := Nat.two_pow_pos k
  simp only at hm hr hs
  subst hm
  cases r <;> cases s <;>
    simp only [ExtendedMantissa.roundedMantissa, ExtendedMantissa.accuracy,
      Accuracy.roundToNearestEven, nearest] <;>
    split <;> (try split) <;> simp at hr hs <;> omega

structure Shape (m : Nat) (e : Int) : Prop where
  lt_two_pow : m < 2 ^ 53
  low : -1074 ≤ e
  normal : 2 ^ 52 ≤ m ∨ e = -1074

def magnitude (m : Nat) (e : Int) : Nat := m * 2 ^ (e + 1074).toNat

theorem targetExponent_eq (m : Nat) (e : Int) :
    Format.binary64.targetExponent (totalExponent m e) = max (m.log2 + e - 52) (-1074) := by
  have h : Format.binary64.targetExponent (totalExponent m e) =
    max (m.log2 + 1 + e - 53) (-1074) := rfl
  rw [h]
  congr 1
  omega

theorem magnitude_ne_zero {m : Nat} (e : Int) (hm : 0 < m) : magnitude m e ≠ 0 :=
  (Nat.mul_pos hm (Nat.two_pow_pos _)).ne'

theorem magnitude_add {m : Nat} {e : Int} (he : -1074 ≤ e) (i : Nat) :
    magnitude m (e + i) = magnitude (m * 2 ^ i) e := by
  have h : (e + i + 1074).toNat = i + (e + 1074).toNat := by omega
  rw [magnitude, magnitude, h, Nat.pow_add, Nat.mul_assoc]

/-- Rounding may carry into a 54th digit, and the second shift takes that back. -/
theorem second_shift {r : Nat} {t : Int} (hr : r ≤ 2 ^ 53) (ht : -1074 ≤ t)
    (hn : 2 ^ 52 ≤ r ∨ t = -1074) {p : ExtendedMantissa × Int}
    (hp : shiftToTargetExponent Format.binary64 r t .exact = p) :
    Shape p.1.mantissa p.2 ∧ magnitude p.1.mantissa p.2 = magnitude r t := by
  subst hp
  simp only [shiftToTargetExponent, targetExponent_eq, shiftToExponent,
    (shifted_shiftRight r _).mantissa]
  rcases Nat.lt_or_eq_of_le hr with hlt | rfl
  · have hlog : r.log2 ≤ 52 := by
      rcases Nat.eq_zero_or_pos r with rfl | hpos
      · decide
      · exact Nat.le_of_lt_succ ((Nat.log2_lt hpos.ne').2 hlt)
    have hz : (max ((r.log2 : Int) + t - 52) (-1074) - t).toNat = 0 := by omega
    rw [hz, Int.natCast_zero, Int.add_zero, Nat.pow_zero, Nat.div_one]
    exact ⟨⟨hlt, ht, hn⟩, rfl⟩
  · have h1 : (max (((2 ^ 53 : Nat).log2 : Int) + t - 52) (-1074) - t).toNat = 1 := by
      rw [Nat.log2_two_pow]
      omega
    rw [h1]
    refine ⟨⟨by decide, by omega, .inl (by decide)⟩, ?_⟩
    rw [magnitude_add ht]
    rfl

theorem roundWithAccuracy_exact (s : Sign) {m : Nat} {e : Int} (hm : 0 < m) (he : -1074 ≤ e)
    (hle : e ≤ Format.binary64.targetExponent (totalExponent m e)) :
    ∃ (m' : Nat) (e' : Int) (h : 0 < m'),
      roundWithAccuracy Format.binary64 s m e .exact = .finite s m' e' h ∧
      Shape m' e' ∧ magnitude m' e' = rounded (magnitude m e) := by
  rw [targetExponent_eq] at hle
  obtain ⟨t, ht⟩ : ∃ t, max ((m.log2 : Int) + e - 52) (-1074) = t := ⟨_, rfl⟩
  rw [ht] at hle
  obtain ⟨i, hi⟩ : ∃ i : Nat, t = e + i := ⟨(t - e).toNat, by omega⟩
  have hshift : (t - e).toNat = i := by omega
  have hk : (magnitude m e).log2 - 52 = (t + 1074).toNat := by
    rw [magnitude, log2_mul_two_pow hm]
    omega
  have hne := magnitude_ne_zero e hm
  -- The first shift gives the digits of the rounded magnitude.
  have hround : rounded (magnitude m e) = magnitude (nearest m i) t := by
    have hsplit : (t + 1074).toNat = i + (e + 1074).toNat := by omega
    rw [rounded, hk, magnitude, magnitude, hsplit, nearest_scale]
  have hpow : 0 < 2 ^ (t + 1074).toNat := Nat.two_pow_pos _
  have hlog : (magnitude m e).log2 ≤ 52 + (t + 1074).toNat := by omega
  have hr : nearest m i ≤ 2 ^ 53 := by
    have hle := rounded_le_two_pow (magnitude m e)
    rw [hround] at hle
    have hle' : nearest m i * 2 ^ (t + 1074).toNat ≤ 2 ^ 53 * 2 ^ (t + 1074).toNat := by
      rw [← Nat.pow_add]
      exact hle.trans (Nat.pow_le_pow_right (by decide) (by omega))
    exact Nat.le_of_mul_le_mul_right hle' hpow
  have hn : 2 ^ 52 ≤ nearest m i ∨ t = -1074 := by
    rcases Nat.eq_zero_or_pos (t + 1074).toNat with h | h
    · exact .inr (by omega)
    · refine .inl ?_
      have hge := two_pow_le_rounded hne
      rw [hround] at hge
      have hge' : 2 ^ 52 * 2 ^ (t + 1074).toNat ≤ nearest m i * 2 ^ (t + 1074).toNat := by
        rw [← Nat.pow_add]
        exact (Nat.pow_le_pow_right (by decide) (by omega)).trans hge
      exact Nat.le_of_mul_le_mul_right hge' hpow
  have hfirst : shiftToTargetExponent Format.binary64 m e .exact =
      (ExtendedMantissa.ofMantissaAndAccuracy m .exact >>> i, t) := by
    simp only [shiftToTargetExponent, targetExponent_eq, shiftToExponent, ht, hshift, ← hi]
  obtain ⟨p, hp⟩ : ∃ p, shiftToTargetExponent Format.binary64 (nearest m i) t .exact = p := ⟨_, rfl⟩
  obtain ⟨hshape, hvalue⟩ := second_shift hr (by omega) hn hp
  rw [← hround] at hvalue
  have hpos : p.1.mantissa ≠ 0 := by
    intro h
    rw [h, magnitude, Nat.zero_mul] at hvalue
    exact (rounded_pos hne).ne hvalue
  refine ⟨p.1.mantissa, p.2, Nat.pos_of_ne_zero hpos, ?_, hshape, hvalue⟩
  simp only [roundWithAccuracy, hfirst, (shifted_shiftRight m i).roundedMantissa, hp, dif_neg hpos]

theorem round_eq (s : Sign) {m : Nat} {e : Int} (hm : 0 < m) (he : -1074 ≤ e) :
    ∃ (m' : Nat) (e' : Int) (h : 0 < m'),
      UnpackedFloat.round Format.binary64 s m e = .finite s m' e' h ∧
      Shape m' e' ∧ magnitude m' e' = rounded (magnitude m e) := by
  simp only [UnpackedFloat.round, decreaseExponent]
  obtain ⟨i, hi⟩ : ∃ i, (e - Format.binary64.targetExponent (totalExponent m e)).toNat = i :=
    ⟨_, rfl⟩
  rw [hi]
  rw [targetExponent_eq] at hi
  have hlow : -1074 ≤ e - i := by omega
  have hm' : 0 < m * 2 ^ i := Nat.mul_pos hm (Nat.two_pow_pos i)
  have hle : e - i ≤ Format.binary64.targetExponent (totalExponent (m * 2 ^ i) (e - i)) := by
    rw [targetExponent_eq, log2_mul_two_pow hm]
    omega
  have hmag : magnitude (m * 2 ^ i) (e - i) = magnitude m e := by
    rw [← magnitude_add hlow, Int.sub_add_cancel]
  rw [Nat.shiftLeft_eq, ← hmag]
  exact roundWithAccuracy_exact s hm' hlow hle

end Shift

end OrbitReplay.Binary64
