import Mathlib.Data.List.Pairwise
import OrbitReplay.Proofs.Hermite.Scalar

namespace OrbitReplay.Hermite

open Scalar

variable {α : Type} [Scalar α]

section Columns

variable {β : Type}

theorem sampleAt?_map {γ : Type} (ss : List β) (f : β → α) (g : β → γ) (x : α) :
    sampleAt? (ss.map f) (ss.map g) x = (ss.find? (f · == x)).map g := by
  induction ss with
  | nil => rfl
  | cons s ss ih =>
    rw [sampleAt?, List.map_cons, List.map_cons, List.zip_cons_cons, List.find?_cons,
      List.find?_cons]
    cases f s == x
    · exact ih
    · rfl

omit [Scalar α] in
theorem knots_map (ss : List β) (f : β → α) (gs : List (β → α)) :
    knots (ss.map f) (gs.map ss.map) = ss.map fun s ↦ ⟨f s, gs.map (· s)⟩ := by
  induction gs with
  | nil => exact List.map_map
  | cons g gs ih =>
    change List.zipWith _ (ss.map g) (knots (ss.map f) (gs.map ss.map)) = _
    rw [ih, List.zipWith_map, List.zipWith_self]
    rfl

end Columns

variable {x y z : α}

theorem same_of_beq (h : x == y) : same x y = true := by
  rw [same, h, Bool.true_or]

theorem precedes_iff : precedes x y = true ↔ x < y ∨ x == x ∧ ¬ y == y := by
  simp [precedes]

variable [Ordered α]

theorem same_symm (h : same x y = true) : same y x = true := by
  rw [same, Bool.or_eq_true, Bool.and_eq_true] at h ⊢
  exact h.imp beq_symm And.symm

theorem precedes_asymm (h : precedes x y = true) : ¬ precedes y x = true := by
  rw [precedes_iff] at h ⊢
  rintro (h' | ⟨hy, hx⟩) <;> rcases h with h | ⟨hx', hy'⟩
  · exact Scalar.lt_asymm h h'
  · exact hy' (number_left h')
  · exact hx (number_left h)
  · exact hx hx'

theorem precedes_trans (h : precedes x y = true) (h' : precedes y z = true) :
    precedes x z = true := by
  rw [precedes_iff] at h h' ⊢
  rcases h with h | ⟨hx, hy⟩ <;> rcases h' with h' | ⟨hy', hz⟩
  · exact .inl (Ordered.lt_trans h h')
  · exact .inr ⟨number_left h, hz⟩
  · exact absurd (number_left h') hy
  · exact absurd hy' hy

theorem precedes_total (h : ¬ same x y = true) : precedes x y = true ∨ precedes y x = true := by
  rw [precedes_iff, precedes_iff]
  by_cases hx : x == x <;> by_cases hy : y == y
  · rcases Ordered.trichotomy hx hy with h' | h' | h'
    · exact .inl (.inl h')
    · exact absurd (same_of_beq h') h
    · exact .inr (.inl h')
  · exact .inl (.inr ⟨hx, hy⟩)
  · exact .inr (.inr ⟨hy, hx⟩)
  · exact absurd (by simp [same, hx, hy]) h

theorem pairwise_place {k : Knot α} {ks : List (Knot α)}
    (hk : ∀ j ∈ ks, ¬ same k.abscissa j.abscissa = true)
    (h : ks.Pairwise fun i j ↦ precedes i.abscissa j.abscissa = true) :
    (place k ks).Pairwise fun i j ↦ precedes i.abscissa j.abscissa = true := by
  induction ks with
  | nil => exact List.pairwise_singleton _ _
  | cons j ks ih =>
    obtain ⟨hj, hks⟩ := List.pairwise_cons.1 h
    rw [place]
    split
    · next hkj =>
      refine List.pairwise_cons.2 ⟨fun i hi ↦ ?_, h⟩
      rcases List.mem_cons.1 hi with rfl | hi
      · exact hkj
      · exact precedes_trans hkj (hj i hi)
    · next hkj =>
      refine List.pairwise_cons.2
        ⟨fun i hi ↦ ?_, ih (fun i hi ↦ hk i (List.mem_cons_of_mem j hi)) hks⟩
      rcases List.mem_cons.1 ((perm_place k ks).mem_iff.1 hi) with rfl | hi
      · exact (precedes_total (hk j List.mem_cons_self)).resolve_left hkj
      · exact hj i hi

theorem pairwise_ascending {ks : List (Knot α)}
    (h : ks.Pairwise fun i j ↦ ¬ same i.abscissa j.abscissa = true) :
    (ascending ks).Pairwise fun i j ↦ precedes i.abscissa j.abscissa = true := by
  induction ks with
  | nil => exact .nil
  | cons k ks ih =>
    obtain ⟨hk, hks⟩ := List.pairwise_cons.1 h
    exact pairwise_place (fun j hj ↦ hk j ((perm_ascending ks).mem_iff.1 hj)) (ih hks)

/-- Knots whose abscissae differ have one ascending order. -/
theorem ascending_perm {ks js : List (Knot α)} (hp : ks.Perm js)
    (h : ks.Pairwise fun i j ↦ ¬ same i.abscissa j.abscissa = true) :
    ascending ks = ascending js :=
  List.Perm.eq_of_pairwise (fun _ _ _ _ hij hji ↦ absurd hji (precedes_asymm hij))
    (pairwise_ascending h) (pairwise_ascending ((hp.pairwise_iff (mt same_symm)).1 h))
    ((perm_ascending ks).trans (hp.trans (perm_ascending js).symm))

theorem distinct_perm {xs ys : List α} (h : xs.Perm ys) : distinct xs = distinct ys := by
  rw [Bool.eq_iff_iff, distinct_iff, distinct_iff]
  exact h.pairwise_iff (mt same_symm)

theorem check_perm {xs ys : List α} (h : xs.Perm ys) (shape : List Nat)
    (derivatives : List (List Nat)) : check xs shape derivatives = check ys shape derivatives := by
  rw [check, check, h.isEmpty_eq, h.length_eq, distinct_perm h]

variable {β : Type} {ss ts : List β} {f : β → α}

theorem find?_perm (hp : ss.Perm ts) (h : ss.Pairwise fun s t ↦ ¬ same (f s) (f t) = true) (x : α) :
    ss.find? (f · == x) = ts.find? (f · == x) := by
  have hsymm : Std.Symm fun s t ↦ ¬ same (f s) (f t) = true := ⟨fun _ _ ↦ mt same_symm⟩
  cases hs : ss.find? (f · == x) with
  | none =>
    rw [List.find?_eq_none] at hs
    exact (List.find?_eq_none.2 fun t ht ↦ hs t (hp.mem_iff.2 ht)).symm
  | some s =>
    have hsx : f s == x := List.find?_some (p := (f · == x)) hs
    have hmem := List.mem_of_find?_eq_some hs
    cases ht : ts.find? (f · == x) with
    | none => exact absurd hsx (List.find?_eq_none.1 ht s (hp.mem_iff.1 hmem))
    | some t =>
      have htx : f t == x := List.find?_some (p := (f · == x)) ht
      by_contra hne
      exact h.forall hmem (hp.mem_iff.2 (List.mem_of_find?_eq_some ht)) (fun he ↦ hne (he ▸ rfl))
        (same_of_beq (beq_trans hsx (beq_symm htx)))

theorem sampleAt?_perm {γ : Type} (hp : ss.Perm ts) (hd : distinct (ss.map f) = true) (g : β → γ)
    (x : α) : sampleAt? (ss.map f) (ss.map g) x = sampleAt? (ts.map f) (ts.map g) x := by
  rw [sampleAt?_map, sampleAt?_map, find?_perm hp (List.pairwise_map.1 (distinct_iff.1 hd))]

theorem scalarAt_perm (hp : ss.Perm ts) (hd : distinct (ss.map f) = true) (g : β → α)
    (gs : List (β → α)) (x : α) :
    scalarAt (ss.map f) (ss.map g) (gs.map ss.map) x =
      scalarAt (ts.map f) (ts.map g) (gs.map ts.map) x := by
  have h : ss.Pairwise fun s t ↦ ¬ same (f s) (f t) = true :=
    List.pairwise_map.1 (distinct_iff.1 hd)
  have hascending (jet : β → List α) : ascending (ss.map fun s ↦ ⟨f s, jet s⟩) =
      ascending (ts.map fun s ↦ ⟨f s, jet s⟩) :=
    ascending_perm (hp.map _) (List.pairwise_map.2 h)
  have hschedule (times : Nat) : schedule (ss.map f) times = schedule (ts.map f) times := by
    have hbare : ascending ((ss.map f).map (⟨·, []⟩)) = ascending ((ts.map f).map (⟨·, []⟩)) := by
      rw [List.map_map, List.map_map]
      exact hascending fun _ ↦ []
    rw [schedule, schedule, hbare]
  have hpolynomial (nodes : List (Node α)) :
      polynomial nodes (ss.map f) (ss.map g :: gs.map ss.map) x =
        polynomial nodes (ts.map f) (ts.map g :: gs.map ts.map) x := by
    have hknots (us : List β) : knots (us.map f) (us.map g :: gs.map us.map) =
        us.map fun s ↦ ⟨f s, (g :: gs).map (· s)⟩ := knots_map us f (g :: gs)
    rw [polynomial, polynomial, hknots, hknots, hascending]
  rw [scalarAt, scalarAt, sampleAt?_perm hp hd g x, List.length_map, List.length_map, hschedule]
  simp only [hpolynomial]

/-- The value of scalar samples, or why they are refused, does not depend on their order. -/
theorem scalar_perm (hp : ss.Perm ts) (f g : β → α) (x : α) :
    scalar (ss.map f) (ss.map g) x = scalar (ts.map f) (ts.map g) x := by
  have hcheck : check (ss.map f) [(ss.map g).length] [] =
      check (ts.map f) [(ts.map g).length] [] := by
    rw [check_perm (hp.map f), (hp.map g).length_eq]
  cases hc : check (ss.map f) [(ss.map g).length] [] with
  | error d => simp only [scalar, hc, ← hcheck]
  | ok u =>
    obtain ⟨-, -, hdistinct, -⟩ := check_eq_ok_iff.1 hc
    have hat : scalarAt (ss.map f) (ss.map g) [] x = scalarAt (ts.map f) (ts.map g) [] x :=
      scalarAt_perm hp hdistinct g [] x
    simp only [scalar, hc, ← hcheck, hat]

end OrbitReplay.Hermite
