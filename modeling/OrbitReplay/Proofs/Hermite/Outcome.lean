import OrbitReplay.Proofs.Binary64.Laws
import OrbitReplay.Proofs.Hermite.Rounds
import OrbitReplay.Proofs.Tensor

namespace OrbitReplay.Hermite

open Scalar

variable {α : Type}

structure Aligned (abscissae values : Tensor α) (k : ℕ) : Prop where
  pos : 0 < k
  abscissae : abscissae.shape = [k]
  values : values.shape = [k] ∨ ∃ width, values.shape = [k, width]

variable {abscissae values : Tensor α} {derivatives : List (Tensor α)} {k : ℕ}

theorem length_data_of_vector (h : abscissae.shape = [k]) : abscissae.data.length = k := by
  rw [Tensor.length_data_of_shape h, volume, Nat.mul_one]

namespace Aligned

variable (h : Aligned abscissae values k)

include h

theorem ne_nil : abscissae.data ≠ [] := by
  rw [← List.length_pos_iff, length_data_of_vector h.abscissae]
  exact h.pos

theorem fits : fits abscissae.data.length values.shape = true := by
  rw [length_data_of_vector h.abscissae]
  exact fits_iff.2 h.values

end Aligned

theorem exists_first_shape (h : ¬ ∀ t ∈ derivatives, t.shape = values.shape) :
    ∃ j t, derivatives[j]? = some t ∧ t.shape ≠ values.shape ∧
      ∀ u ∈ derivatives.take j, u.shape = values.shape := by
  induction derivatives with
  | nil => exact absurd (fun _ ht ↦ absurd ht List.not_mem_nil) h
  | cons t ts ih =>
    by_cases ht : t.shape = values.shape
    · have hts : ¬ ∀ u ∈ ts, u.shape = values.shape :=
        fun hall ↦ h (List.forall_mem_cons.2 ⟨ht, hall⟩)
      obtain ⟨j, u, hu, hne, hbefore⟩ := ih hts
      exact ⟨j + 1, u, hu, hne, List.forall_mem_cons.2 ⟨ht, hbefore⟩⟩
    · exact ⟨0, t, rfl, ht, fun _ hu ↦ absurd hu List.not_mem_nil⟩

theorem find?_zipIdx {shapes : List (List ℕ)} {s shape : List ℕ} {j : ℕ} (hj : shapes[j]? = some s)
    (hne : s ≠ shape) (hbefore : ∀ u ∈ shapes.take j, u = shape) :
    shapes.zipIdx.find? (·.1 != shape) = some (s, j) := by
  obtain ⟨hlt, rfl⟩ := List.getElem?_eq_some_iff.1 hj
  refine List.find?_eq_some_iff_getElem.2
    ⟨by simpa using hne, j, by simpa using hlt, by simp, fun i hi ↦ ?_⟩
  have hmem : shapes[i] ∈ shapes.take j :=
    List.mem_take_iff_getElem.2 ⟨i, by omega, rfl⟩
  simp [hbefore _ hmem]

variable [Scalar α]

structure WellFormed (abscissae values : Tensor α) (derivatives : List (Tensor α)) : Prop where
  aligned : ∃ k, Aligned abscissae values k
  apart : abscissae.data.Pairwise fun x y ↦ ¬ x == y
  shapes : ∀ t ∈ derivatives, t.shape = values.shape

/-- The first condition that samples fail, in the order in which they are checked. -/
inductive Malformed (abscissae values : Tensor α) (derivatives : List (Tensor α)) : Defect α → Prop
  | noAbscissa : (∀ k, abscissae.shape = [k] → k = 0) →
      Malformed abscissae values derivatives .noAbscissa
  | valuesShape {k : ℕ} : abscissae.shape = [k] → 0 < k → ¬ Aligned abscissae values k →
      Malformed abscissae values derivatives (.valuesShape values.shape k)
  | repeatedAbscissa {k : ℕ} : Aligned abscissae values k →
      (¬ abscissae.data.Pairwise fun x y ↦ ¬ x == y) →
      Malformed abscissae values derivatives .repeatedAbscissa
  | derivativeShape {k j : ℕ} {t : Tensor α} : Aligned abscissae values k →
      (abscissae.data.Pairwise fun x y ↦ ¬ x == y) →
      derivatives[j]? = some t → t.shape ≠ values.shape →
      (∀ u ∈ derivatives.take j, u.shape = values.shape) →
      Malformed abscissae values derivatives (.derivativeShape (j + 1) t.shape values.shape)

theorem wellFormed_or_malformed (abscissae values : Tensor α) (derivatives : List (Tensor α)) :
    WellFormed abscissae values derivatives ∨ ∃ d, Malformed abscissae values derivatives d := by
  by_cases hvector : ∃ k, abscissae.shape = [k] ∧ 0 < k
  · obtain ⟨k, hk, hpos⟩ := hvector
    by_cases haligned : Aligned abscissae values k
    · by_cases hapart : abscissae.data.Pairwise fun x y ↦ ¬ x == y
      · by_cases hshapes : ∀ t ∈ derivatives, t.shape = values.shape
        · exact .inl ⟨⟨k, haligned⟩, hapart, hshapes⟩
        · obtain ⟨j, t, ht, hne, hbefore⟩ := exists_first_shape hshapes
          exact .inr ⟨_, .derivativeShape haligned hapart ht hne hbefore⟩
      · exact .inr ⟨_, .repeatedAbscissa haligned hapart⟩
    · exact .inr ⟨_, .valuesShape hk hpos haligned⟩
  · refine .inr ⟨_, .noAbscissa fun k hk ↦ ?_⟩
    exact Nat.eq_zero_of_not_pos fun hpos ↦ hvector ⟨k, hk, hpos⟩

theorem value_of_error (hk : abscissae.shape = [k]) {d : Defect α}
    (h : check abscissae.data values.shape (derivatives.map Tensor.shape) = .error d) (x : α) :
    value abscissae values derivatives x = .error d := by
  simp only [value, hk, h]

section Numbers

variable (hx : ∀ a ∈ abscissae.data, a == a)

include hx

theorem WellFormed.check_eq (h : WellFormed abscissae values derivatives) :
    check abscissae.data values.shape (derivatives.map Tensor.shape) = .ok () := by
  obtain ⟨k, haligned⟩ := h.aligned
  refine check_eq_ok haligned.ne_nil haligned.fits ((distinct_eq_true hx).2 h.apart) ?_
  exact List.forall_mem_map.2 h.shapes

theorem Malformed.value_eq {d : Defect α} (h : Malformed abscissae values derivatives d) (x : α) :
    value abscissae values derivatives x = .error d := by
  cases h with
  | noAbscissa h =>
    cases hshape : abscissae.shape with
    | nil => simp only [value, hshape]
    | cons n rest =>
      cases rest with
      | nil =>
        have hnil : abscissae.data = [] := by
          rw [← List.length_eq_zero_iff, length_data_of_vector hshape, h n hshape]
        exact value_of_error hshape (by rw [hnil]; rfl) x
      | cons m rest => simp only [value, hshape]
  | @valuesShape k hk hpos h =>
    have hlen := length_data_of_vector hk
    have hempty : abscissae.data.isEmpty = false :=
      List.isEmpty_eq_false_iff.2 (List.ne_nil_of_length_pos (hlen ▸ hpos))
    have hfits : fits k values.shape = false :=
      Bool.eq_false_iff.2 fun hf ↦ h ⟨hpos, hk, fits_iff.1 hf⟩
    exact value_of_error hk (by simp [check, hempty, hlen, hfits]) x
  | @repeatedAbscissa k h hsame =>
    have hempty := List.isEmpty_eq_false_iff.2 h.ne_nil
    have hdistinct : distinct abscissae.data = false :=
      Bool.eq_false_iff.2 (mt (distinct_eq_true hx).1 hsame)
    exact value_of_error h.abscissae (by simp [check, hempty, h.fits, hdistinct]) x
  | @derivativeShape k j t h hapart ht hne hbefore =>
    have hempty := List.isEmpty_eq_false_iff.2 h.ne_nil
    have hdistinct := (distinct_eq_true hx).2 hapart
    have hfind : (derivatives.map Tensor.shape).zipIdx.find? (·.1 != values.shape) =
        some (t.shape, j) := by
      refine find?_zipIdx (by rw [List.getElem?_map, ht, Option.map_some]) hne ?_
      rw [← List.map_take]
      exact List.forall_mem_map.2 hbefore
    exact value_of_error h.abscissae (by simp [check, hempty, h.fits, hdistinct, hfind]) x

theorem WellFormed.schedule_eq (h : WellFormed abscissae values derivatives) [Ordered α] :
    schedule abscissae.data (derivatives.length + 1) =
      .ok (stages derivatives.length (sorted abscissae.data)) :=
  schedule_stages _ hx h.apart

theorem WellFormed.exists_value [Ordered α] (h : WellFormed abscissae values derivatives) (x : α) :
    ∃ v, value abscissae values derivatives x = .ok v := by
  obtain ⟨k, haligned⟩ := h.aligned
  have hcheck := value_of_check (x := x) haligned.abscissae (h.check_eq hx)
  have hschedule := h.schedule_eq hx
  rcases haligned.values with hv | ⟨width, hv⟩
  · rw [hcheck.1 hv, scalarAt, List.length_map]
    cases sampleAt? abscissae.data values.data x with
    | some y => exact ⟨_, rfl⟩
    | none => exact ⟨_, by simp only [hschedule]; rfl⟩
  · rw [hcheck.2 width hv, vectorAt]
    cases sampleAt? abscissae.data values.rows x with
    | some row => exact ⟨_, rfl⟩
    | none => exact ⟨_, by simp only [hschedule]; rfl⟩

end Numbers

def components (values : Tensor α) (derivatives : List (Tensor α)) : List (List (List α)) :=
  match values.shape with
  | [_, width] => (List.range width).map fun c ↦ values.column c :: derivatives.map (·.column c)
  | _ => [values.data :: derivatives.map Tensor.data]

theorem WellFormed.lengths (h : WellFormed abscissae values derivatives) {orders : List (List α)}
    (ho : orders ∈ components values derivatives) :
    orders.length = derivatives.length + 1 ∧
      ∀ col ∈ orders, col.length = abscissae.data.length := by
  obtain ⟨k, haligned⟩ := h.aligned
  rw [length_data_of_vector haligned.abscissae]
  have hshapes : ∀ t ∈ values :: derivatives, t.shape = values.shape :=
    List.forall_mem_cons.2 ⟨rfl, h.shapes⟩
  rw [components] at ho
  rcases haligned.values with hv | ⟨width, hv⟩
  · simp only [hv, List.mem_singleton] at ho
    subst ho
    refine ⟨by simp, ?_⟩
    rw [← List.map_cons, List.forall_mem_map]
    exact fun t ht ↦ length_data_of_vector ((hshapes t ht).trans hv)
  · simp only [hv] at ho
    obtain ⟨c, hc, rfl⟩ := List.mem_map.1 ho
    refine ⟨by simp, ?_⟩
    rw [← List.map_cons (f := fun t : Tensor α ↦ t.column c), List.forall_mem_map]
    exact fun t ht ↦ Tensor.length_column ((hshapes t ht).trans hv) (List.mem_range.1 hc)

theorem sampleAt?_of_apart {β : Type} {xs : List α} {bs : List β} {x : α}
    (h : ∀ a ∈ xs, ¬ a == x) : sampleAt? xs bs x = none := by
  rw [sampleAt?, Option.map_eq_none_iff, List.find?_eq_none]
  exact fun e he ↦ h e.1 (List.of_mem_zip he).1

/-- Away from the abscissae each component is interpolated by itself. -/
theorem WellFormed.value_apart [Ordered α] (hx : ∀ a ∈ abscissae.data, a == a)
    (h : WellFormed abscissae values derivatives) {x : α}
    (hapart : ∀ a ∈ abscissae.data, ¬ a == x) :
    ∃ v, value abscissae values derivatives x = .ok v ∧
      v.data = (components values derivatives).map fun orders ↦
        polynomial (stages derivatives.length (sorted abscissae.data)) abscissae.data orders x := by
  obtain ⟨k, haligned⟩ := h.aligned
  have hcheck := value_of_check (x := x) haligned.abscissae (h.check_eq hx)
  have hschedule := h.schedule_eq hx
  rw [components]
  rcases haligned.values with hv | ⟨width, hv⟩
  · rw [hcheck.1 hv, scalarAt, List.length_map, sampleAt?_of_apart hapart]
    simp only [hschedule, hv]
    exact ⟨_, rfl, rfl⟩
  · rw [hcheck.2 width hv, vectorAt, sampleAt?_of_apart hapart]
    simp only [hschedule, hv]
    refine ⟨_, rfl, ?_⟩
    rw [List.map_map]
    rfl

/-- Samples at numbers have a value exactly if they are well-formed, and are otherwise refused for
the first condition that they fail. Away from the abscissae every component is interpolated by a
scheme in which each round asks for the derivative of its order and divides by no zero. -/
theorem value_outcome [Subtractive α] (hx : ∀ a ∈ abscissae.data, a == a) (x : α) :
    ((∃ v, value abscissae values derivatives x = .ok v) ↔
      WellFormed abscissae values derivatives) ∧
    (∀ d, value abscissae values derivatives x = .error d ↔
      Malformed abscissae values derivatives d) ∧
    (WellFormed abscissae values derivatives → (∀ a ∈ abscissae.data, ¬ a == x) →
      ∃ nodes v, schedule abscissae.data (derivatives.length + 1) = .ok nodes ∧
        value abscissae values derivatives x = .ok v ∧
        v.data = (components values derivatives).map (polynomial nodes abscissae.data · x) ∧
        ∀ orders ∈ components values derivatives, orders.length = derivatives.length + 1 ∧
          Rounds abscissae.data orders nodes
            ((ascending (knots abscissae.data orders)).flatMap Knot.jet) ∧
          polynomial nodes abscissae.data orders x = (Table.ofNodes nodes
            ((ascending (knots abscissae.data orders)).flatMap Knot.jet)).eval x) := by
  refine ⟨⟨fun ⟨v, hv⟩ ↦ ?_, fun h ↦ h.exists_value hx x⟩,
    fun d ↦ ⟨fun hd ↦ ?_, fun h ↦ h.value_eq hx x⟩, fun h hapart ↦ ?_⟩
  · refine (wellFormed_or_malformed abscissae values derivatives).resolve_right fun ⟨d, hd⟩ ↦ ?_
    cases hv.symm.trans (hd.value_eq hx x)
  · rcases wellFormed_or_malformed abscissae values derivatives with h | ⟨d', hd'⟩
    · obtain ⟨v, hv⟩ := h.exists_value hx x
      cases hv.symm.trans hd
    · cases hd.symm.trans (hd'.value_eq hx x)
      exact hd'
  · obtain ⟨v, hv, hdata⟩ := h.value_apart hx hapart
    refine ⟨_, v, h.schedule_eq hx, hv, hdata, fun orders ho ↦ ?_⟩
    obtain ⟨horders, hlen⟩ := h.lengths ho
    exact ⟨horders, rounds hx h.apart horders hlen, rfl⟩

/-- A slope in the wrong place is refused also where a value is stored, and zeros of either sign
are the same abscissa. -/
theorem value_outcome_binary64 :
    let xs : Tensor Float := ⟨[2], [2, -0.0], rfl⟩
    let ys : Tensor Float := ⟨[2], [8, 0], rfl⟩
    value xs ys [⟨[2], [12, 0], rfl⟩, ⟨[1], [0], rfl⟩] 2 = .error (.derivativeShape 2 [1] [2]) ∧
      value ⟨[2], [0.0, -0.0], rfl⟩ ys [] (1 : Float) = .error .repeatedAbscissa ∧
      ∃ nodes, schedule xs.data 2 = .ok nodes ∧ nodes.map Node.order = [0, 1, 0, 1] ∧
        Rounds xs.data [[8, 0], [12, 0]] nodes
          ((ascending (knots xs.data [[8, 0], [12, 0]])).flatMap Knot.jet) := by
  have hx : ∀ a ∈ [2, (-0.0 : Float)], a == a := by decide +kernel
  have hapart : [2, (-0.0 : Float)].Pairwise fun x y ↦ ¬ x == y := by decide +kernel
  have haligned : Aligned (⟨[2], [2, -0.0], rfl⟩ : Tensor Float) ⟨[2], [8, 0], rfl⟩ 2 :=
    ⟨by decide, rfl, .inl rfl⟩
  have hzeros : ∀ a ∈ [0.0, (-0.0 : Float)], a == a := by decide +kernel
  have hsame : ¬ [0.0, (-0.0 : Float)].Pairwise fun x y ↦ ¬ x == y := by decide +kernel
  have hnew : ∀ a ∈ [2, (-0.0 : Float)], ¬ a == 1 := by decide +kernel
  refine ⟨?_, ?_, ?_⟩
  · have h := @value_outcome Float ⟨[2], [2, -0.0], rfl⟩ ⟨[2], [8, 0], rfl⟩
      [⟨[2], [12, 0], rfl⟩, ⟨[1], [0], rfl⟩] _ _ hx 2
    exact (h.2.1 _).2
      (.derivativeShape (j := 1) (t := ⟨[1], [0], rfl⟩) haligned hapart rfl (by decide) (by simp))
  · have h := @value_outcome Float ⟨[2], [0.0, -0.0], rfl⟩ ⟨[2], [8, 0], rfl⟩ [] _ _ hzeros 1
    exact (h.2.1 _).2 (.repeatedAbscissa ⟨Nat.zero_lt_two, rfl, .inl rfl⟩ hsame)
  · have h := @value_outcome Float ⟨[2], [2, -0.0], rfl⟩ ⟨[2], [8, 0], rfl⟩ [⟨[2], [12, 0], rfl⟩]
      _ _ hx 1
    obtain ⟨nodes, v, hnodes, -, -, hrounds⟩ := h.2.2 ⟨⟨2, haligned⟩, hapart, by simp⟩ hnew
    refine ⟨nodes, hnodes, ?_, (hrounds _ (List.mem_singleton_self _)).2.1⟩
    cases hnodes
    rfl

end OrbitReplay.Hermite
