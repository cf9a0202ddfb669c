import OrbitReplay.Proofs.Hermite.Exact
import OrbitReplay.Proofs.Tensor

namespace OrbitReplay.Hermite

open Polynomial Scalar

variable {abscissae values : Tensor ℚ} {derivatives : List (Tensor ℚ)} {k : ℕ}

theorem vectorAt_of_samples {ps : List ℚ[X]} (hne : abscissae.data ≠ [])
    (hn : abscissae.data.Nodup)
    (hp : ∀ p ∈ ps, p.degree < ((abscissae.data.length * (derivatives.length + 1) : ℕ) : WithBot ℕ))
    (hshape : ∀ t ∈ values :: derivatives, t.shape = [abscissae.data.length, ps.length])
    (hdata : ∀ (j : ℕ) t, (values :: derivatives)[j]? = some t →
      t.data = abscissae.data.flatMap fun a ↦ ps.map fun p ↦ (derivative^[j] p).eval a) (x : ℚ) :
    vectorAt abscissae.data values derivatives ps.length x = .ok (ps.map (eval x)) := by
  have hrow (j : ℕ) (a : ℚ) : (ps.map fun p ↦ (derivative^[j] p).eval a).length = ps.length :=
    List.length_map _
  have hrows : values.rows = abscissae.data.map fun a ↦ ps.map (eval a) :=
    Tensor.rows_eq (hrow 0) (hshape values List.mem_cons_self) (hdata 0 values rfl)
  have hcolumn {c : ℕ} {p : ℚ[X]} (hc : ps[c]? = some p) :
      Samples p abscissae.data (values.column c :: derivatives.map (·.column c)) := by
    have hread (j : ℕ) (t : Tensor ℚ) (ht : (values :: derivatives)[j]? = some t) :
        t.column c = abscissae.data.map fun a ↦ (derivative^[j] p).eval a := by
      refine Tensor.column_eq (hrow j) (fun a ↦ ?_) (hshape t (List.mem_of_getElem? ht))
        (hdata j t ht)
      rw [List.getElem?_map, hc, Option.map_some]
    exact samples_map hread (hp p (List.mem_of_getElem? hc))
  rw [vectorAt]
  cases hs : sampleAt? abscissae.data values.rows x with
  | some row =>
    rw [hrows] at hs
    exact congrArg Except.ok (eq_of_sampleAt? hs)
  | none =>
    simp only [schedule_of_nodup derivatives.length hn]
    refine congrArg Except.ok (List.ext_getElem (by simp) fun c hc hc' ↦ ?_)
    rw [List.length_map] at hc'
    have hpoly := polynomial_of_samples hne hn (hcolumn (List.getElem?_eq_getElem hc')) x
    rw [List.length_map] at hpoly
    simpa using hpoly

/-- In exact arithmetic the values and derivatives of a polynomial, of a degree below their number,
at abscissae that differ are interpolated by the polynomial: at any point, in whatever order the
abscissae stand, and for a matrix in every column by the polynomial of the column. -/
theorem value_interpolates (hk : 0 < k) (hx : abscissae.shape = [k]) (hn : abscissae.data.Nodup)
    (hshape : ∀ t ∈ derivatives, t.shape = values.shape) (x : ℚ) :
    (∀ p : ℚ[X], p.degree < ((k * (derivatives.length + 1) : ℕ) : WithBot ℕ) →
      values.shape = [k] →
      (∀ (j : ℕ) t, (values :: derivatives)[j]? = some t →
        t.data = abscissae.data.map fun a ↦ (derivative^[j] p).eval a) →
      value abscissae values derivatives x = .ok (.scalar (p.eval x))) ∧
    ∀ ps : List ℚ[X], (∀ p ∈ ps, p.degree < ((k * (derivatives.length + 1) : ℕ) : WithBot ℕ)) →
      values.shape = [k, ps.length] →
      (∀ (j : ℕ) t, (values :: derivatives)[j]? = some t →
        t.data = abscissae.data.flatMap fun a ↦ ps.map fun p ↦ (derivative^[j] p).eval a) →
      value abscissae values derivatives x = .ok (.vector (ps.map (eval x))) := by
  have hlen : abscissae.data.length = k := by
    rw [abscissae.length_data, hx]
    exact Nat.mul_one k
  have hne : abscissae.data ≠ [] := List.ne_nil_of_length_pos (hlen ▸ hk)
  have hshapes : ∀ s ∈ derivatives.map Tensor.shape, s = values.shape := by
    intro s hs
    obtain ⟨t, ht, rfl⟩ := List.mem_map.1 hs
    exact hshape t ht
  have hcheck (hfits : fits abscissae.data.length values.shape = true) :
      check abscissae.data values.shape (derivatives.map Tensor.shape) = .ok () :=
    check_eq_ok hne hfits (distinct_of_nodup hn) hshapes
  refine ⟨fun p hp hv hdata ↦ ?_, fun ps hp hv hdata ↦ ?_⟩
  · have hsamples : Samples p abscissae.data (values.data :: derivatives.map Tensor.data) :=
      samples_map hdata (hlen.symm ▸ hp)
    have hc := hcheck (by simp [hv, hlen, fits])
    rw [(value_of_check hx hc).1 hv, scalarAt_of_samples hne hn hsamples]
    rfl
  · have hall : ∀ t ∈ values :: derivatives, t.shape = [abscissae.data.length, ps.length] := by
      rw [hlen, ← hv]
      exact List.forall_mem_cons.2 ⟨rfl, hshape⟩
    have hc := hcheck (by simp [hv, hlen, fits])
    rw [(value_of_check hx hc).2 _ hv, vectorAt_of_samples hne hn (hlen ▸ hp) hall hdata]
    rfl

/-- Values and slopes of a cube, alone between its samples and next to a line at one of them. -/
theorem value_interpolates_cube :
    value ⟨[2], [2, (0 : ℚ)], rfl⟩ ⟨[2], [8, 0], rfl⟩ [⟨[2], [12, 0], rfl⟩] 1 =
        .ok (.scalar 1) ∧
      value ⟨[2], [2, (0 : ℚ)], rfl⟩ ⟨[2, 2], [8, 3, 0, 1], rfl⟩ [⟨[2, 2], [12, 1, 0, 1], rfl⟩] 2 =
        .ok (.vector [8, 3]) := by
  have hn : [2, (0 : ℚ)].Nodup := by decide +kernel
  have hcube : (X ^ 3 : ℚ[X]).degree < ((2 * (1 + 1) : ℕ) : WithBot ℕ) := by
    rw [degree_X_pow]
    exact_mod_cast Nat.lt_succ_self 3
  have hline : (X + C 1 : ℚ[X]).degree < ((2 * (1 + 1) : ℕ) : WithBot ℕ) := by
    rw [degree_X_add_C]
    exact_mod_cast (by decide : 1 < 2 * (1 + 1))
  constructor
  · have h := (@value_interpolates ⟨[2], [2, (0 : ℚ)], rfl⟩ ⟨[2], [8, 0], rfl⟩
      [⟨[2], [12, 0], rfl⟩] 2 (by decide) rfl hn (by simp) 1).1 (X ^ 3) hcube rfl ?_
    · simpa using h
    · rintro (_ | _ | j) t ht <;> cases ht <;> norm_num
  · have h := (@value_interpolates ⟨[2], [2, (0 : ℚ)], rfl⟩ ⟨[2, 2], [8, 3, 0, 1], rfl⟩
      [⟨[2, 2], [12, 1, 0, 1], rfl⟩] 2 (by decide) rfl hn (by simp) 2).2 [X ^ 3, X + C 1]
      (List.forall_mem_cons.2 ⟨hcube, List.forall_mem_singleton.2 hline⟩) rfl ?_
    · rw [h]
      norm_num
    · rintro (_ | _ | j) t ht <;> cases ht <;> norm_num

end OrbitReplay.Hermite
