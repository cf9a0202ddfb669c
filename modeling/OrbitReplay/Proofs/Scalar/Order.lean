import OrbitReplay.Scalar

namespace OrbitReplay.Scalar

/-- Comparisons are those of a linear order on the values that are numbers. A value that is not one
compares with nothing, not even with itself, and equal values need not be the same. -/
class Ordered (α : Type) [Scalar α] : Prop where
  beq_symm {x y : α} : x == y → y == x
  beq_trans {x y z : α} : x == y → y == z → x == z
  lt_irrefl (x : α) : ¬ x < x
  lt_trans {x y z : α} : x < y → y < z → x < z
  lt_of_beq_of_lt {x y z : α} : x == y → y < z → x < z
  lt_of_lt_of_beq {x y z : α} : x < y → y == z → x < z
  le_iff {x y : α} : x ≤ y ↔ x < y ∨ x == y
  trichotomy {x y : α} : x == x → y == y → x < y ∨ x == y ∨ y < x
  number_of_lt {x y : α} : x < y → x == x ∧ y == y
  number_of_isFinite {x : α} : isFinite x → x == x
  isFinite_of_between {x y z : α} : x < y → y < z → isFinite y

export Ordered (beq_symm beq_trans lt_of_beq_of_lt lt_of_lt_of_beq le_iff number_of_isFinite)

/-- Rounding may collapse two differences but never swaps them. -/
class Subtractive (α : Type) [Scalar α] : Prop extends Ordered α where
  sub_le_sub_right {x y z : α} : isFinite z → x ≤ y → x - z ≤ y - z
  sub_le_sub_left {x y z : α} : isFinite z → x ≤ y → z - y ≤ z - x
  sub_beq_zero_iff {x y : α} : x - y == ofNat 0 ↔ x == y ∧ isFinite y
  abs_of_nonneg {x : α} : ofNat 0 ≤ x → abs x == x

export Subtractive (sub_beq_zero_iff)

variable {α : Type} [Scalar α]

section Ordered

variable [Ordered α] {x y z : α}

instance : PartialEquivBEq α := ⟨beq_symm, beq_trans⟩

theorem number_left (h : x < y) : x == x := (Ordered.number_of_lt h).1

theorem number_right (h : x < y) : y == y := (Ordered.number_of_lt h).2

theorem number_of_beq (h : x == y) : x == x := beq_trans h (beq_symm h)

theorem not_beq_of_lt (h : x < y) : ¬ x == y := fun he ↦
  Ordered.lt_irrefl x (lt_of_lt_of_beq h (beq_symm he))

protected theorem lt_asymm (h : x < y) : ¬ y < x := fun h' ↦
  Ordered.lt_irrefl x (Ordered.lt_trans h h')

protected theorem le_of_lt (h : x < y) : x ≤ y := le_iff.2 (.inl h)

theorem le_of_beq (h : x == y) : x ≤ y := le_iff.2 (.inr h)

protected theorem le_trans (h : x ≤ y) (h' : y ≤ z) : x ≤ z := by
  rcases le_iff.1 h with h | h <;> rcases le_iff.1 h' with h' | h'
  · exact Scalar.le_of_lt (Ordered.lt_trans h h')
  · exact Scalar.le_of_lt (lt_of_lt_of_beq h h')
  · exact Scalar.le_of_lt (lt_of_beq_of_lt h h')
  · exact le_of_beq (beq_trans h h')

instance : Trans (fun x y : α ↦ x ≤ y) (fun x y : α ↦ x ≤ y) (fun x y : α ↦ x ≤ y) :=
  ⟨Scalar.le_trans⟩

protected theorem lt_of_le_of_lt (h : x ≤ y) (h' : y < z) : x < z := by
  rcases le_iff.1 h with h | h
  · exact Ordered.lt_trans h h'
  · exact lt_of_beq_of_lt h h'

protected theorem lt_of_lt_of_le (h : x < y) (h' : y ≤ z) : x < z := by
  rcases le_iff.1 h' with h' | h'
  · exact Ordered.lt_trans h h'
  · exact lt_of_lt_of_beq h h'

theorem number_of_le_left (h : x ≤ y) : x == x := by
  rcases le_iff.1 h with h | h
  · exact number_left h
  · exact number_of_beq h

theorem number_of_le_right (h : x ≤ y) : y == y := by
  rcases le_iff.1 h with h | h
  · exact number_right h
  · exact number_of_beq (beq_symm h)

protected theorem not_lt_of_le (h : x ≤ y) : ¬ y < x := fun h' ↦
  Ordered.lt_irrefl x (Scalar.lt_of_le_of_lt h h')

protected theorem le_of_not_lt (hx : x == x) (hy : y == y) (h : ¬ x < y) : y ≤ x := by
  rcases Ordered.trichotomy hx hy with h' | h' | h'
  · exact absurd h' h
  · exact le_of_beq (beq_symm h')
  · exact Scalar.le_of_lt h'

protected theorem lt_of_not_le (hx : x == x) (hy : y == y) (h : ¬ x ≤ y) : y < x := by
  rcases Ordered.trichotomy hx hy with h' | h' | h'
  · exact absurd (Scalar.le_of_lt h') h
  · exact absurd (le_of_beq h') h
  · exact h'

theorem beq_of_le_of_le (h : x ≤ y) (h' : y ≤ x) : x == y := by
  rcases le_iff.1 h with h | h
  · exact absurd h (Scalar.not_lt_of_le h')
  · exact h

end Ordered

section Subtractive

variable [Subtractive α] {x y z : α}

theorem number_sub (hz : isFinite z) (hx : x == x) : x - z == x - z :=
  number_of_le_left (Subtractive.sub_le_sub_right hz (le_of_beq hx))

theorem sub_beq_zero (hy : isFinite y) (h : x == y) : x - y == ofNat 0 :=
  sub_beq_zero_iff.2 ⟨h, hy⟩

/-- What has no difference from a finite number is finite. -/
theorem isFinite_of_beq (hx : isFinite x) (h : x == y) : isFinite y := by
  have hxx : x - x == ofNat 0 := sub_beq_zero hx (number_of_isFinite hx)
  have hle : x - y ≤ x - x := Subtractive.sub_le_sub_left hx (le_of_beq h)
  have hge : x - x ≤ x - y := Subtractive.sub_le_sub_left hx (le_of_beq (beq_symm h))
  exact (sub_beq_zero_iff.1 (beq_trans (beq_of_le_of_le hle hge) hxx)).2

theorem zero_le_sub (hy : isFinite y) (h : x ≤ y) : ofNat 0 ≤ y - x := by
  have hyy : y - y == ofNat 0 := sub_beq_zero hy (number_of_isFinite hy)
  exact Scalar.le_trans (le_of_beq (beq_symm hyy)) (Subtractive.sub_le_sub_left hy h)

theorem zero_le_sub_of_left (hx : isFinite x) (h : x ≤ y) : ofNat 0 ≤ y - x := by
  have hxx : x - x == ofNat 0 := sub_beq_zero hx (number_of_isFinite hx)
  exact Scalar.le_trans (le_of_beq (beq_symm hxx)) (Subtractive.sub_le_sub_right hx h)

theorem zero_lt_sub (hy : isFinite y) (h : x < y) : ofNat 0 < y - x := by
  rcases le_iff.1 (zero_le_sub hy (Scalar.le_of_lt h)) with hlt | he
  · exact hlt
  · exact absurd (beq_symm (sub_beq_zero_iff.1 (beq_symm he)).1) (not_beq_of_lt h)

theorem lt_of_zero_lt_sub (hx : isFinite x) (hy : isFinite y) (h : ofNat 0 < y - x) : x < y := by
  rcases Ordered.trichotomy (number_of_isFinite hx) (number_of_isFinite hy) with hlt | he | hlt
  · exact hlt
  · have hzero : y - x == ofNat 0 := sub_beq_zero hx (beq_symm he)
    exact absurd (lt_of_lt_of_beq h hzero) (Ordered.lt_irrefl _)
  · have hxx : x - x == ofNat 0 := sub_beq_zero hx (number_of_isFinite hx)
    have hle : y - x ≤ ofNat 0 :=
      Scalar.le_trans (Subtractive.sub_le_sub_right hx (Scalar.le_of_lt hlt)) (le_of_beq hxx)
    exact absurd h (Scalar.not_lt_of_le hle)

theorem not_distance_le_of_beq (hd : isFinite y) (h : x < y) (he : z == y) :
    ¬ distance y x ≤ distance z y := fun hle ↦ by
  have hpos : ofNat 0 < y - x := zero_lt_sub hd h
  have hzero : z - y == ofNat 0 := sub_beq_zero hd he
  have habs : distance z y == z - y := Subtractive.abs_of_nonneg (le_of_beq (beq_symm hzero))
  have hlow : y - x ≤ distance y x :=
    le_of_beq (beq_symm (Subtractive.abs_of_nonneg (Scalar.le_of_lt hpos)))
  have hle' : y - x ≤ ofNat 0 :=
    Scalar.le_trans hlow (Scalar.le_trans hle (le_of_beq (beq_trans habs hzero)))
  exact Ordered.lt_irrefl _ (Scalar.lt_of_lt_of_le hpos hle')

theorem distance_le_of_beq (hd : isFinite y) (he : x == y) (h : y ≤ z) :
    distance y x ≤ distance z y := by
  have hxy : y ≤ x := le_of_beq (beq_symm he)
  have hzero : y - x == ofNat 0 :=
    beq_trans (beq_of_le_of_le (Subtractive.sub_le_sub_left hd hxy)
      (Subtractive.sub_le_sub_left hd (le_of_beq he)))
      (sub_beq_zero hd (number_of_isFinite hd))
  have hnear : distance y x == y - x := Subtractive.abs_of_nonneg (le_of_beq (beq_symm hzero))
  have hfar : distance z y == z - y := Subtractive.abs_of_nonneg (zero_le_sub_of_left hd h)
  calc distance y x
    _ ≤ ofNat 0 := le_of_beq (beq_trans hnear hzero)
    _ ≤ z - y := zero_le_sub_of_left hd h
    _ ≤ distance z y := le_of_beq (beq_symm hfar)

end Subtractive

class Mirrored (α : Type) [Scalar α] : Prop extends Subtractive α where
  distance_comm (x y : α) : distance x y = distance y x

export Mirrored (distance_comm)

section Mirrored

variable [Mirrored α] {x y z : α}

theorem distance_mono_above (hd : isFinite z) (hx : z ≤ x) (h : x ≤ y) :
    distance x z ≤ distance y z :=
  calc distance x z
    _ ≤ x - z := le_of_beq (Subtractive.abs_of_nonneg (zero_le_sub_of_left hd hx))
    _ ≤ y - z := Subtractive.sub_le_sub_right hd h
    _ ≤ distance y z := le_of_beq (beq_symm
      (Subtractive.abs_of_nonneg (zero_le_sub_of_left hd (Scalar.le_trans hx h))))

theorem distance_mono_below (hd : isFinite z) (h : x ≤ y) (hy : y ≤ z) :
    distance y z ≤ distance x z := by
  rw [distance_comm y z, distance_comm x z]
  calc distance z y
    _ ≤ z - y := le_of_beq (Subtractive.abs_of_nonneg (zero_le_sub hd hy))
    _ ≤ z - x := Subtractive.sub_le_sub_left hd h
    _ ≤ distance z x := le_of_beq (beq_symm
      (Subtractive.abs_of_nonneg (zero_le_sub hd (Scalar.le_trans h hy))))

end Mirrored

class Opposed (α : Type) [Scalar α] : Prop extends Subtractive α where
  zero_lt_sub_iff {x y : α} : ofNat 0 < x - y ↔ y - x < ofNat 0

export Opposed (zero_lt_sub_iff)

class Absorbing (α : Type) [Scalar α] : Prop extends Subtractive α where
  number_of_distance {x y : α} : distance x y == distance x y → x == x ∧ y == y

/-- Rounded distances from a date: the same both ways, and on either side no smaller further out.
Differences of distinct numbers may still be rounded away. -/
class Spaced (α : Type) [Scalar α] : Prop extends Ordered α where
  comm (x y : α) : distance x y = distance y x
  mono_above {x y z : α} : isFinite z → z ≤ x → x ≤ y → distance x z ≤ distance y z
  mono_below {x y z : α} : isFinite z → x ≤ y → y ≤ z → distance y z ≤ distance x z

instance [Mirrored α] : Spaced α where
  comm := distance_comm
  mono_above := distance_mono_above
  mono_below := distance_mono_below

theorem number_distance [Spaced α] {x z : α} (hz : isFinite z) (hx : x == x) :
    distance x z == distance x z := by
  rcases Ordered.trichotomy hx (number_of_isFinite hz) with h | h | h
  · exact number_of_le_left (Spaced.mono_below hz (le_of_beq hx) (Scalar.le_of_lt h))
  · exact number_of_le_left (Spaced.mono_below hz (le_of_beq hx) (le_of_beq h))
  · exact number_of_le_left (Spaced.mono_above hz (Scalar.le_of_lt h) (le_of_beq hx))

/-- Subtraction is monotone with an infinite number as well, as long as the others are finite. -/
class Extended (α : Type) [Scalar α] : Prop extends Subtractive α where
  sub_le_sub_right_of_finite {x y z : α} : isFinite x → isFinite y → z == z → x ≤ y →
    x - z ≤ y - z
  sub_le_sub_left_of_finite {x y z : α} : isFinite x → isFinite y → z == z → x ≤ y →
    z - y ≤ z - x

def gap (x y : α) : α := if y ≤ x then distance x y else distance y x

theorem gap_eq_distance [Mirrored α] (x y : α) : gap x y = distance x y := by
  rw [gap]
  split
  · rfl
  · exact distance_comm y x

section Extended

variable [Extended α] {x y z : α}

theorem gap_of_le (hx : isFinite x) (h : x ≤ z) : gap z x == z - x := by
  rw [gap, if_pos h]
  exact Subtractive.abs_of_nonneg (zero_le_sub_of_left hx h)

theorem gap_of_lt (hx : isFinite x) (h : z < x) : gap z x == x - z := by
  rw [gap, if_neg fun hle ↦ Scalar.not_lt_of_le hle h]
  exact Subtractive.abs_of_nonneg (zero_le_sub hx (Scalar.le_of_lt h))

theorem gap_mono_below (hx : isFinite x) (hy : isFinite y) (h : x ≤ y) (hz : y ≤ z) :
    gap z y ≤ gap z x :=
  calc gap z y
    _ ≤ z - y := le_of_beq (gap_of_le hy hz)
    _ ≤ z - x := Extended.sub_le_sub_left_of_finite hx hy (number_of_le_right hz) h
    _ ≤ gap z x := le_of_beq (beq_symm (gap_of_le hx (Scalar.le_trans h hz)))

theorem gap_mono_above (hx : isFinite x) (hy : isFinite y) (hz : z < x) (h : x ≤ y) :
    gap z x ≤ gap z y :=
  calc gap z x
    _ ≤ x - z := le_of_beq (gap_of_lt hx hz)
    _ ≤ y - z := Extended.sub_le_sub_right_of_finite hx hy (number_left hz) h
    _ ≤ gap z y := le_of_beq (beq_symm (gap_of_lt hy (Scalar.lt_of_lt_of_le hz h)))

theorem gap_le_of_beq (hx : isFinite x) (he : x == z) (hy : isFinite y) (h : z < y) :
    gap z x ≤ gap z y := by
  have hzero : z - x == ofNat 0 := sub_beq_zero hx (beq_symm he)
  calc gap z x
    _ ≤ ofNat 0 := le_of_beq (beq_trans (gap_of_le hx (le_of_beq he)) hzero)
    _ ≤ y - z := zero_le_sub hy (Scalar.le_of_lt h)
    _ ≤ gap z y := le_of_beq (beq_symm (gap_of_lt hy h))

end Extended

end OrbitReplay.Scalar
