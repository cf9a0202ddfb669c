import OrbitReplay.Proofs.Hermite.Newton
import OrbitReplay.Proofs.Hermite.Reorder

namespace OrbitReplay.Hermite

open Scalar

theorem eq_of_sampleAt? {β : Type} {xs : List ℚ} {f : ℚ → β} {x : ℚ} {b : β}
    (h : sampleAt? xs (xs.map f) x = some b) : b = f x := by
  have hfind := sampleAt?_map xs id f x
  rw [List.map_id, h] at hfind
  obtain ⟨a, ha, rfl⟩ := Option.map_eq_some_iff.1 hfind.symm
  rw [beq_rat.1 (List.find?_some (p := (· == x)) ha)]

theorem pairwise_of_nodup {xs : List ℚ} (hn : xs.Nodup) : xs.Pairwise fun x y ↦ ¬ x == y :=
  hn.imp fun hne he ↦ hne (beq_rat.1 he)

theorem schedule_of_nodup (times : ℕ) {xs : List ℚ} (hn : xs.Nodup) :
    schedule xs (times + 1) = .ok (stages times (sorted xs)) :=
  schedule_stages times (fun _ _ ↦ beq_rat.2 rfl) (pairwise_of_nodup hn)

section Polynomials

open Polynomial

structure Samples (p : ℚ[X]) (xs : List ℚ) (orders : List (List ℚ)) : Prop where
  rows {j : ℕ} {ys : List ℚ} : orders[j]? = some ys → ys = xs.map fun a ↦ (derivative^[j] p).eval a
  degree_lt : p.degree < ((xs.length * orders.length : ℕ) : WithBot ℕ)

variable {p : ℚ[X]} {xs ys : List ℚ} {rows : List (List ℚ)}

theorem samples_map {β : Type} {ts : List β} {read : β → List ℚ}
    (hrows : ∀ (j : ℕ) t, ts[j]? = some t → read t = xs.map fun a ↦ (derivative^[j] p).eval a)
    (hp : p.degree < ((xs.length * ts.length : ℕ) : WithBot ℕ)) : Samples p xs (ts.map read) := by
  refine ⟨fun {j ys} hj ↦ ?_, by rwa [List.length_map]⟩
  rw [List.getElem?_map] at hj
  obtain ⟨t, ht, rfl⟩ := Option.map_eq_some_iff.1 hj
  exact hrows j t ht

theorem Samples.knots_eq {orders : List (List ℚ)} (h : Samples p xs orders) :
    knots xs orders = xs.map fun x ↦
      ⟨x, (List.range orders.length).map fun j ↦ (derivative^[j] p).eval x⟩ := by
  have horders : orders = ((List.range orders.length).map
      fun j a ↦ (derivative^[j] p).eval a).map xs.map := by
    refine List.ext_getElem (by simp) fun j hj hj' ↦ ?_
    simpa using h.rows (List.getElem?_eq_getElem hj)
  have hknots := knots_map xs id ((List.range orders.length).map
    fun j a ↦ (derivative^[j] p).eval a)
  rw [List.map_id] at hknots
  rw [horders, hknots]
  simp

/-- The polynomial through the samples of a polynomial of a degree below their number is this
polynomial. -/
theorem polynomial_of_samples (hne : xs ≠ []) (hn : xs.Nodup) (h : Samples p xs (ys :: rows))
    (x : ℚ) : polynomial (stages rows.length (sorted xs)) xs (ys :: rows) x = p.eval x := by
  have hperm := perm_sorted xs
  have hjets : (ascending (knots xs (ys :: rows))).flatMap Knot.jet =
      (stages rows.length (sorted xs)).map (Node.valueOf p) := by
    rw [h.knots_eq, flatMap_jet, stages, List.map_flatMap]
    simp only [List.map_map, List.length_cons]
    rfl
  rw [polynomial, hjets]
  cases hs : sorted xs with
  | nil => exact absurd (List.nil_perm.1 (hs ▸ hperm)) hne
  | cons t ts =>
    rw [hs] at hperm
    have hnodup : (t :: ts).Nodup := hperm.nodup_iff.2 hn
    have hlen := length_stages rows.length (t :: ts)
    rw [hperm.length_eq, stages_cons, List.length_cons] at hlen
    rw [stages_cons]
    refine eval_ofNodes (Follows.again_times rows.length ?_) (hlen ▸ h.degree_lt) x
    rw [Nat.zero_add]
    exact follows_stages rows.length (pairwise_of_nodup hnodup) fun _ _ _ ha ↦
      absurd ha List.not_mem_nil

theorem scalarAt_of_samples (hne : xs ≠ []) (hn : xs.Nodup) (h : Samples p xs (ys :: rows))
    (x : ℚ) : scalarAt xs ys rows x = .ok (p.eval x) := by
  have hys : ys = xs.map fun a ↦ p.eval a := h.rows List.getElem?_cons_zero
  rw [scalarAt]
  cases hs : sampleAt? xs ys x with
  | some y =>
    rw [hys] at hs
    exact congrArg Except.ok (eq_of_sampleAt? hs)
  | none => simp only [schedule_of_nodup rows.length hn, polynomial_of_samples hne hn h]

theorem distinct_of_nodup (hn : xs.Nodup) : distinct xs = true :=
  (distinct_eq_true fun _ _ ↦ beq_rat.2 rfl).2 (pairwise_of_nodup hn)

theorem scalar_of_samples (hne : xs ≠ []) (hn : xs.Nodup)
    (hp : p.degree < (xs.length : WithBot ℕ)) (x : ℚ) :
    scalar xs (xs.map fun a ↦ p.eval a) x = .ok (p.eval x) := by
  have hsamples : Samples p xs [xs.map fun a ↦ p.eval a] := by
    refine ⟨fun {j ys} hj ↦ ?_, by rwa [List.length_singleton, Nat.mul_one]⟩
    cases j with
    | zero => exact (Option.some_inj.1 hj).symm
    | succ j => cases hj
  rw [scalar, check_eq hne (List.length_map _), if_pos (distinct_of_nodup hn)]
  exact scalarAt_of_samples hne hn hsamples x

end Polynomials

end OrbitReplay.Hermite
