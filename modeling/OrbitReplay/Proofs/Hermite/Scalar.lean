import OrbitReplay.Hermite.Interpolate
import OrbitReplay.Proofs.Scalar.Alike

namespace OrbitReplay.Hermite

open Scalar

theorem fits_iff {samples : ℕ} {shape : List ℕ} :
    fits samples shape = true ↔ shape = [samples] ∨ ∃ width, shape = [samples, width] := by
  match shape with
  | [] | [_] | [_, _] | _ :: _ :: _ :: _ => simp [fits]

variable {α : Type} [Scalar α]

theorem check_eq_ok {xs : List α} {shape : List ℕ} {shapes : List (List ℕ)} (hne : xs ≠ [])
    (hfits : fits xs.length shape = true) (hd : distinct xs = true)
    (hs : ∀ s ∈ shapes, s = shape) : check xs shape shapes = .ok () := by
  have hempty : xs.isEmpty = false := List.isEmpty_eq_false_iff.2 hne
  have hfind : shapes.zipIdx.find? (·.1 != shape) = none := by
    refine List.find?_eq_none.2 fun e he ↦ ?_
    have hshape : e.1 = shape := hs e.1 (List.fst_mem_of_mem_zipIdx he)
    simp [hshape]
  simp [check, hempty, hfits, hd, hfind]

theorem check_eq_ok_iff {xs : List α} {shape : List ℕ} {shapes : List (List ℕ)} :
    check xs shape shapes = .ok () ↔
      xs ≠ [] ∧ fits xs.length shape = true ∧ distinct xs = true ∧ ∀ s ∈ shapes, s = shape := by
  refine ⟨fun h ↦ ?_, fun ⟨hne, hfits, hd, hs⟩ ↦ check_eq_ok hne hfits hd hs⟩
  rw [check] at h
  split at h
  · cases h
  next hempty =>
    split at h
    · cases h
    next hfits =>
      split at h
      · cases h
      next hd =>
        refine ⟨fun he ↦ hempty (List.isEmpty_iff.2 he), by simpa using hfits, by simpa using hd,
          fun s hs ↦ ?_⟩
        split at h
        · cases h
        next hfind =>
          obtain ⟨j, hj⟩ := List.mem_iff_getElem?.1 hs
          have hmem : (s, j) ∈ shapes.zipIdx := List.mk_mem_zipIdx_iff_getElem?.2 hj
          simpa using List.find?_eq_none.1 hfind _ hmem

theorem value_of_check {abscissae values : Tensor α} {derivatives : List (Tensor α)} {k : ℕ} {x : α}
    (hx : abscissae.shape = [k])
    (hc : check abscissae.data values.shape (derivatives.map Tensor.shape) = .ok ()) :
    (values.shape = [k] → value abscissae values derivatives x =
      (scalarAt abscissae.data values.data (derivatives.map Tensor.data) x).map Tensor.scalar) ∧
    ∀ width, values.shape = [k, width] → value abscissae values derivatives x =
      (vectorAt abscissae.data values derivatives width x).map Tensor.vector := by
  simp only [value, hx, hc]
  refine ⟨fun hv ↦ ?_, fun width hv ↦ ?_⟩ <;> rw [hv]

theorem count?_eq_some (seen : List α) {xs : List α} (hn : ∀ x ∈ xs, x == x) :
    ∃ nodes, count? seen xs = some nodes := by
  induction xs generalizing seen with
  | nil => exact ⟨[], rfl⟩
  | cons x xs ih =>
    obtain ⟨nodes, h⟩ := ih (x :: seen) fun y hy ↦ hn y (List.mem_cons_of_mem _ hy)
    exact ⟨_, by rw [count?, if_pos (hn x List.mem_cons_self), h, Option.map_some]⟩

theorem nodes?_eq_some {xs : List α} (hn : ∀ x ∈ xs, x == x) : ∃ nodes, nodes? xs = some nodes := by
  cases xs with
  | nil => exact ⟨[], rfl⟩
  | cons x xs =>
    obtain ⟨nodes, h⟩ := count?_eq_some [x] fun y hy ↦ hn y (List.mem_cons_of_mem _ hy)
    exact ⟨_, by rw [nodes?, h, Option.map_some]⟩

theorem schedule_eq_ok {xs : List α} (hn : ∀ x ∈ xs, x == x) (times : Nat) :
    ∃ nodes, schedule xs times = .ok nodes := by
  have hk : ∀ x ∈ (ascending (xs.map (⟨·, []⟩))).flatMap
      fun k ↦ List.replicate times k.abscissa, x == x := by
    intro x hx
    obtain ⟨k, hk, hx⟩ := List.mem_flatMap.1 hx
    obtain ⟨y, hy, rfl⟩ := List.mem_map.1 ((perm_ascending _).mem_iff.1 hk)
    rw [(List.mem_replicate.1 hx).2]
    exact hn y hy
  obtain ⟨nodes, h⟩ := nodes?_eq_some hk
  exact ⟨nodes, by rw [schedule, h]⟩

theorem check_eq {xs : List α} {n : Nat} (hne : xs ≠ []) (hn : n = xs.length) :
    check xs [n] [] = if distinct xs then .ok () else .error .repeatedAbscissa := by
  subst hn
  have hempty : xs.isEmpty = false := List.isEmpty_eq_false_iff.2 hne
  cases hd : distinct xs <;> simp [check, hempty, fits, hd]

/-- Abscissae that are numbers are refused exactly if two of them are equal. -/
theorem scalar_cases {xs ys : List α} (hne : xs ≠ []) (hlen : ys.length = xs.length)
    (hn : ∀ x ∈ xs, x == x) (x : α) :
    distinct xs = true ∧ (∃ v, scalar xs ys x = .ok v) ∨
      distinct xs = false ∧ scalar xs ys x = .error .repeatedAbscissa := by
  rw [scalar, check_eq hne hlen]
  cases hd : distinct xs with
  | false => exact .inr ⟨rfl, rfl⟩
  | true =>
    refine .inl ⟨rfl, ?_⟩
    simp only [if_true, scalarAt]
    cases sampleAt? xs ys x with
    | some y => exact ⟨y, rfl⟩
    | none =>
      obtain ⟨nodes, h⟩ := schedule_eq_ok hn (List.length ([] : List (List α)) + 1)
      exact ⟨polynomial nodes xs [ys] x, by simp only [h]⟩

theorem distinct_iff {xs : List α} :
    distinct xs = true ↔ xs.Pairwise fun x y ↦ ¬ same x y = true := by
  induction xs with
  | nil => simp [distinct]
  | cons x xs ih =>
    rw [distinct, Bool.and_eq_true, ih, List.pairwise_cons, Bool.not_eq_true', List.any_eq_false]

theorem distinct_eq_true {xs : List α} (hn : ∀ x ∈ xs, x == x) :
    distinct xs = true ↔ xs.Pairwise fun x y ↦ ¬ x == y := by
  rw [distinct_iff]
  refine List.Pairwise.iff_of_mem fun {x y} hx _ ↦ ?_
  rw [same, hn x hx, Bool.not_true, Bool.false_and, Bool.or_false]

theorem sampleAt?_eq_none {β : Type} {xs : List α} {rows : List β} {x : α}
    (hlen : rows.length = xs.length) (h : sampleAt? xs rows x = none) : ∀ a ∈ xs, ¬ a == x := by
  intro a ha
  rw [sampleAt?, Option.map_eq_none_iff, List.find?_eq_none] at h
  obtain ⟨i, hi, rfl⟩ := List.mem_iff_getElem.1 ha
  have hz : (xs[i], rows[i]) ∈ xs.zip rows :=
    List.mem_iff_getElem.2 ⟨i, by simp only [List.length_zip]; omega, List.getElem_zip⟩
  exact h _ hz

section Congruent

variable [Congruent α]

theorem distinct_congr {xs xs' : List α} (h : AlikeAll xs xs') : distinct xs = distinct xs' := by
  induction h with
  | nil => rfl
  | @cons x x' xs xs' hx h ih =>
    have hsame : xs.any (same x) = xs'.any (same x') := by
      clear ih
      induction h with
      | nil => rfl
      | cons hy _ ih =>
        simp only [List.any_cons, ih, same, beq_congr hx hy, beq_congr hx hx, beq_congr hy hy]
    rw [distinct, distinct, hsame, ih]

theorem sampleAt?_congr {β : Type} {xs xs' : List α} (h : AlikeAll xs xs') (rows : List β)
    (x : α) : sampleAt? xs rows x = sampleAt? xs' rows x := by
  induction h generalizing rows with
  | nil => rfl
  | @cons a a' _ _ ha _ ih =>
    cases rows with
    | nil => rfl
    | cons row rows =>
      have he : (a == x) = (a' == x) := beq_congr ha .rfl
      have := ih rows
      simp only [sampleAt?, List.zip_cons_cons, List.find?_cons, he] at this ⊢
      cases a' == x
      · exact this
      · rfl

/-- At zero either the stored value is found, or no abscissa is a zero and all are the same. -/
theorem scalar_zero_congr {xs xs' ys : List α} (h : AlikeAll xs xs')
    (hlen : ys.length = xs.length) : scalar xs ys (ofNat 0) = scalar xs' ys (ofNat 0) := by
  have hlen' : ys.length = xs'.length := hlen.trans h.length_eq
  have hcheck : check xs [ys.length] [] = check xs' [ys.length] [] := by
    by_cases hne : xs = []
    · subst hne
      rw [List.forall₂_nil_left_iff.1 h]
    · have hne' : xs' ≠ [] :=
        fun he ↦ hne (List.length_eq_zero_iff.1 (by rw [h.length_eq, he, List.length_nil]))
      rw [check_eq hne hlen, check_eq hne' hlen', distinct_congr h]
  have hat : scalarAt xs ys [] (ofNat 0) = scalarAt xs' ys [] (ofNat 0) := by
    rw [scalarAt, scalarAt, ← sampleAt?_congr h]
    cases hs : sampleAt? xs ys (ofNat 0) with
    | some y => rfl
    | none =>
      have hzero := sampleAt?_eq_none hlen hs
      have he : xs = xs' := by
        clear hcheck hs hlen hlen'
        induction h with
        | nil => rfl
        | cons hx _ ih =>
          rw [hx.eq (hzero _ List.mem_cons_self), ih fun a ha ↦ hzero a (List.mem_cons_of_mem _ ha)]
      rw [he]
  rw [scalar, scalar, hcheck, hat]

end Congruent

end OrbitReplay.Hermite
