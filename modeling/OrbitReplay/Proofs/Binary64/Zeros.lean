import OrbitReplay.Proofs.Scalar.Alike
import OrbitReplay.Proofs.Binary64.Laws

namespace OrbitReplay.Binary64

open Float.Model Float.Model.UnpackedFloat

def Similar (u v : UnpackedFloat) : Prop := u = v ∨ (∃ s, u = .zero s) ∧ ∃ s, v = .zero s

theorem Similar.rfl {u : UnpackedFloat} : Similar u u := .inl (Eq.refl u)

theorem Similar.zeros (s t : Sign) :
    Similar (.zero s) (.zero t) := .inr ⟨⟨s, Eq.refl _⟩, t, Eq.refl _⟩

theorem Similar.trans {u v w : UnpackedFloat} : Similar u v → Similar v w → Similar u w
  | .inl h, h' => h ▸ h'
  | h, .inl h' => h' ▸ h
  | .inr ⟨hu, _⟩, .inr ⟨_, hw⟩ => .inr ⟨hu, hw⟩

theorem Similar.stored {u v : UnpackedFloat} : Similar u v → Similar (stored u) (stored v)
  | .inl h => .inl (by rw [h])
  | .inr ⟨⟨s, hu⟩, t, hv⟩ => by
    have hzero (s : Sign) : Binary64.stored (.zero s) = .zero s :=
      unpack_pack (u := .zero s) trivial
    rw [hu, hv, hzero, hzero]
    exact .zeros s t

theorem similar_of_compare {u v : UnpackedFloat} (h : u.compare v = some .eq) : Similar u v := by
  cases u with
  | notANumber => cases h
  | infinity s =>
    cases v with
    | infinity t => cases s <;> cases t <;> first | exact .rfl | cases h
    | _ => cases s <;> cases h
  | zero s =>
    cases v with
    | zero t => exact .zeros s t
    | notANumber => cases h
    | _ t => cases t <;> cases h
  | finite s m e hm =>
    cases v with
    | notANumber => cases h
    | finite t n f hn =>
      cases s <;> cases t
      · obtain ⟨rfl, rfl⟩ : e = f ∧ m = n := by simpa [UnpackedFloat.compare] using h
        exact .rfl
      · cases h
      · cases h
      · obtain ⟨rfl, rfl⟩ : e = f ∧ m = n := by simpa [UnpackedFloat.compare] using h
        exact .rfl
    | infinity t => cases s <;> cases t <;> cases h
    | zero t => cases s <;> cases h

theorem unpack_injective {x y : Float} (h : x.toModel.unpack = y.toModel.unpack) : x = y := by
  obtain ⟨⟨a, ha⟩⟩ := x
  obtain ⟨⟨b, hb⟩⟩ := y
  have hbits : a.toBitVec = b.toBitVec := by
    rw [← pack_unpack ha, ← pack_unpack hb]
    exact congrArg _ h
  obtain rfl : a = b := UInt64.toBitVec_inj.1 hbits
  rfl

theorem beq_zero_iff {x : Float} : x == Float.ofNat 0 ↔ ∃ s, x.toModel.unpack = .zero s := by
  have h : (x == Float.ofNat 0) = (x.toModel.unpack.compare (.zero .positive) == some .eq) := rfl
  rw [h]
  generalize x.toModel.unpack = u
  cases u with
  | notANumber => simp [UnpackedFloat.compare]
  | zero s => simp [UnpackedFloat.compare]
  | infinity s => cases s <;> simp [UnpackedFloat.compare]
  | finite s m e hm => cases s <;> simp [UnpackedFloat.compare]

theorem alike_iff {x y : Float} : Scalar.Alike x y ↔ Similar x.toModel.unpack y.toModel.unpack := by
  refine ⟨fun h ↦ ?_, fun h ↦ ?_⟩
  · rcases h with rfl | ⟨hx, hy⟩
    · exact .rfl
    · exact .inr ⟨beq_zero_iff.1 hx, beq_zero_iff.1 hy⟩
  · rcases h with h | ⟨hx, hy⟩
    · exact .inl (unpack_injective h)
    · exact .inr ⟨beq_zero_iff.2 hx, beq_zero_iff.2 hy⟩

/-- An operation that gives similar results on the two zeros gives similar results on similar
operands. -/
theorem similar_map₂ {f : UnpackedFloat → UnpackedFloat → UnpackedFloat}
    (hl : ∀ s t v, Similar (f (.zero s) v) (f (.zero t) v))
    (hr : ∀ u s t, Similar (f u (.zero s)) (f u (.zero t))) {u u' v v' : UnpackedFloat}
    (hu : Similar u u') (hv : Similar v v') : Similar (stored (f u v)) (stored (f u' v')) := by
  have hleft : Similar (f u v) (f u' v) := by
    rcases hu with rfl | ⟨⟨s, rfl⟩, t, rfl⟩
    · exact .rfl
    · exact hl s t v
  have hright : Similar (f u' v) (f u' v') := by
    rcases hv with rfl | ⟨⟨s, rfl⟩, t, rfl⟩
    · exact .rfl
    · exact hr u' s t
  exact (hleft.trans hright).stored

end OrbitReplay.Binary64

namespace OrbitReplay

open Binary64 Float.Model

instance : Scalar.Congruent Float where
  alike_of_beq := by
    intro x y h
    have h' : (x.toModel.unpack.compare y.toModel.unpack == some .eq) = true := h
    exact alike_iff.2 (similar_of_compare (eq_of_beq h'))
  isFinite_of_zero := by
    intro x h
    obtain ⟨s, hs⟩ := beq_zero_iff.1 h
    have hx : Scalar.isFinite x = x.toModel.unpack.isFinite := rfl
    rw [hx, hs]
    rfl
  alike_add hx hy := by
    refine alike_iff.2 (similar_map₂ (f := UnpackedFloat.add Format.binary64) ?_ ?_
      (alike_iff.1 hx) (alike_iff.1 hy))
    · intro s t v
      cases v with
      | zero r => cases s <;> cases t <;> cases r <;> exact .zeros _ _
      | _ => exact .rfl
    · intro u s t
      cases u with
      | zero r => cases s <;> cases t <;> cases r <;> exact .zeros _ _
      | _ => exact .rfl
  alike_sub hx hy := by
    refine alike_iff.2 (similar_map₂ (f := UnpackedFloat.sub Format.binary64) ?_ ?_
      (alike_iff.1 hx) (alike_iff.1 hy))
    · intro s t v
      cases v with
      | zero r => cases s <;> cases t <;> cases r <;> exact .zeros _ _
      | _ => exact .rfl
    · intro u s t
      cases u with
      | zero r => cases s <;> cases t <;> cases r <;> exact .zeros _ _
      | _ => exact .rfl
  alike_mul hx hy := by
    refine alike_iff.2 (similar_map₂ (f := UnpackedFloat.mul Format.binary64) ?_ ?_
      (alike_iff.1 hx) (alike_iff.1 hy))
    · intro s t v
      cases v with
      | zero r => exact .zeros _ _
      | finite r m e hm => exact .zeros _ _
      | _ => exact .rfl
    · intro u s t
      cases u with
      | zero r => exact .zeros _ _
      | finite r m e hm => exact .zeros _ _
      | _ => exact .rfl
  alike_div hx y := by
    refine alike_iff.2 (Similar.stored ?_)
    rcases alike_iff.1 hx with h | ⟨⟨s, hs⟩, t, ht⟩
    · rw [h]
      exact .rfl
    · rw [hs, ht]
      cases y.toModel.unpack with
      | infinity r => exact .zeros _ _
      | finite r m e hm => exact .zeros _ _
      | _ => exact .rfl
  alike_abs hx := by
    refine alike_iff.2 (Similar.stored ?_)
    rcases alike_iff.1 hx with h | ⟨⟨s, hs⟩, t, ht⟩
    · rw [h]
      exact .rfl
    · rw [hs, ht]
      exact .rfl

end OrbitReplay
