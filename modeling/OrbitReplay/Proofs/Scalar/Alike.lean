import Mathlib.Data.List.Forall2
import OrbitReplay.Proofs.Scalar.Order

namespace OrbitReplay.Scalar

theorem forall₂_getElem? {β γ : Type} {R : β → γ → Prop} {xs : List β} {ys : List γ}
    (h : List.Forall₂ R xs ys) (i : Nat) :
    xs[i]? = none ∧ ys[i]? = none ∨ ∃ x y, xs[i]? = some x ∧ ys[i]? = some y ∧ R x y := by
  induction h generalizing i with
  | nil => exact .inl ⟨rfl, rfl⟩
  | @cons x y _ _ h _ ih =>
    cases i with
    | zero => exact .inr ⟨x, y, rfl, rfl, h⟩
    | succ i => exact ih i

variable {α : Type} [Scalar α]

def Alike (x y : α) : Prop := x = y ∨ x == ofNat 0 ∧ y == ofNat 0

theorem Alike.rfl {x : α} : Alike x x := .inl (Eq.refl x)

theorem Alike.symm {x y : α} : Alike x y → Alike y x
  | .inl h => .inl h.symm
  | .inr ⟨hx, hy⟩ => .inr ⟨hy, hx⟩

theorem Alike.trans {x y z : α} : Alike x y → Alike y z → Alike x z
  | .inl h, h' => h ▸ h'
  | h, .inl h' => h' ▸ h
  | .inr ⟨hx, _⟩, .inr ⟨_, hz⟩ => .inr ⟨hx, hz⟩

theorem Alike.eq {x y : α} (h : Alike x y) (hx : ¬ x == ofNat 0) : x = y :=
  h.resolve_right fun hz ↦ hx hz.1

abbrev AlikeAll (xs ys : List α) : Prop := List.Forall₂ Alike xs ys

theorem AlikeAll.rfl {xs : List α} : AlikeAll xs xs := List.forall₂_same.2 fun _ _ ↦ .rfl

theorem AlikeAll.symm {xs ys : List α} (h : AlikeAll xs ys) : AlikeAll ys xs :=
  (h.imp fun _ _ h ↦ h.symm).flip

theorem AlikeAll.trans {xs ys zs : List α} (h : AlikeAll xs ys) (h' : AlikeAll ys zs) :
    AlikeAll xs zs := by
  induction h generalizing zs with
  | nil => exact h'
  | cons h _ ih =>
    cases h' with
    | cons h' hs => exact .cons (h.trans h') (ih hs)

theorem AlikeAll.zipWith {f g : α → α → α}
    (hf : ∀ {x x' y y'}, Alike x x' → Alike y y' → Alike (f x y) (g x' y')) {xs xs' ys ys' : List α}
    (hxs : AlikeAll xs xs') (hys : AlikeAll ys ys') :
    AlikeAll (List.zipWith f xs ys) (List.zipWith g xs' ys') := by
  induction hxs generalizing ys ys' with
  | nil => exact .nil
  | cons hx _ ih =>
    cases hys with
    | nil => exact .nil
    | cons hy hys => exact .cons (hf hx hy) (ih hys)

class Congruent (α : Type) [Scalar α] : Prop extends Ordered α where
  alike_of_beq {x y : α} : x == y → Alike x y
  isFinite_of_zero {x : α} : x == ofNat 0 → isFinite x
  alike_add {x x' y y' : α} : Alike x x' → Alike y y' → Alike (x + y) (x' + y')
  alike_sub {x x' y y' : α} : Alike x x' → Alike y y' → Alike (x - y) (x' - y')
  alike_mul {x x' y y' : α} : Alike x x' → Alike y y' → Alike (x * y) (x' * y')
  alike_div {x x' : α} : Alike x x' → ∀ y, Alike (x / y) (x' / y)
  alike_abs {x x' : α} : Alike x x' → Alike (abs x) (abs x')

export Congruent (alike_of_beq isFinite_of_zero alike_add alike_sub alike_mul alike_div alike_abs)

section Ordered

variable [Ordered α] {x x' y y' : α}

theorem beq_congr (hx : Alike x x') (hy : Alike y y') : (x == y) = (x' == y') := by
  rw [Bool.eq_iff_iff]
  rcases hx with rfl | ⟨hx, hx'⟩ <;> rcases hy with rfl | ⟨hy, hy'⟩
  · exact Iff.rfl
  · exact ⟨fun h ↦ beq_trans h (beq_trans hy (beq_symm hy')),
      fun h ↦ beq_trans h (beq_trans hy' (beq_symm hy))⟩
  · exact ⟨fun h ↦ beq_trans hx' (beq_trans (beq_symm hx) h),
      fun h ↦ beq_trans hx (beq_trans (beq_symm hx') h)⟩
  · exact ⟨fun _ ↦ beq_trans hx' (beq_symm hy'), fun _ ↦ beq_trans hx (beq_symm hy)⟩

theorem lt_congr_left (h : Alike x x') : x < y ↔ x' < y := by
  rcases h with rfl | ⟨hx, hx'⟩
  · exact Iff.rfl
  · have he : x == x' := beq_trans hx (beq_symm hx')
    exact ⟨lt_of_beq_of_lt (beq_symm he), lt_of_beq_of_lt he⟩

theorem lt_congr_right (h : Alike y y') : x < y ↔ x < y' := by
  rcases h with rfl | ⟨hy, hy'⟩
  · exact Iff.rfl
  · have he : y == y' := beq_trans hy (beq_symm hy')
    exact ⟨fun h ↦ lt_of_lt_of_beq h he, fun h ↦ lt_of_lt_of_beq h (beq_symm he)⟩

theorem lt_congr (hx : Alike x x') (hy : Alike y y') : x < y ↔ x' < y' :=
  (lt_congr_left hx).trans (lt_congr_right hy)

theorem le_congr (hx : Alike x x') (hy : Alike y y') : x ≤ y ↔ x' ≤ y' := by
  rw [le_iff, le_iff, lt_congr hx hy, beq_congr hx hy]

end Ordered

section Congruent

variable [Congruent α] {x x' y y' : α}

theorem isFinite_congr (h : Alike x x') : isFinite x = isFinite x' := by
  rcases h with rfl | ⟨hx, hx'⟩
  · rfl
  · rw [isFinite_of_zero hx, isFinite_of_zero hx']

theorem alike_distance (hx : Alike x x') (hy : Alike y y') :
    Alike (distance x y) (distance x' y') :=
  alike_abs (alike_sub hx hy)

theorem alike_larger (hx : Alike x x') (hy : Alike y y') : Alike (larger x y) (larger x' y') := by
  simp only [larger, lt_congr hx hy]
  split
  · exact hy
  · exact hx

theorem alike_smaller (hx : Alike x x') (hy : Alike y y') :
    Alike (smaller x y) (smaller x' y') := by
  simp only [smaller, lt_congr hy hx]
  split
  · exact hy
  · exact hx

end Congruent

end OrbitReplay.Scalar
