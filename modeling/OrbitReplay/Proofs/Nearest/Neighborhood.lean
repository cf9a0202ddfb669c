import OrbitReplay.Nearest.Neighborhood

namespace OrbitReplay.Nearest

open Scalar

variable {α : Type} [Scalar α]

/-- One more index: the next one below if it is not further away than the next one above, or the
next one above if it is nearer than the next one below. Above the end only if none is left below. -/
theorem grow_succ (dates : List α) (date : α) (n lower upper : Nat) :
    (∃ l, lower = l + 1 ∧ grow dates date (n + 1) lower upper = l :: grow dates date n l upper ∧
      ∀ a b, dates[l]? = some a → dates[upper]? = some b → distance a date ≤ distance b date) ∨
    ((lower = 0 ∨ upper < dates.length) ∧
      grow dates date (n + 1) lower upper = upper :: grow dates date n lower (upper + 1) ∧
      ∀ l a b, lower = l + 1 → dates[l]? = some a → dates[upper]? = some b →
        ¬ distance a date ≤ distance b date) := by
  cases lower with
  | zero => exact .inr ⟨.inl rfl, rfl, fun l _ _ hl ↦ (by cases hl)⟩
  | succ l =>
    rw [grow]
    split
    · next a b ha hb =>
      have hlt := (List.getElem?_eq_some_iff.1 hb).1
      split
      · next hle =>
        refine .inl ⟨l, rfl, rfl, fun a' b' ha' hb' ↦ ?_⟩
        rw [ha, Option.some_inj] at ha'
        rw [hb, Option.some_inj] at hb'
        exact ha' ▸ hb' ▸ hle
      · next hle =>
        refine .inr ⟨.inr hlt, rfl, fun k a' b' hk ha' hb' ↦ ?_⟩
        cases hk
        rw [ha, Option.some_inj] at ha'
        rw [hb, Option.some_inj] at hb'
        exact ha' ▸ hb' ▸ hle
    · next hnone => exact .inl ⟨l, rfl, rfl, fun a b ha hb ↦ (hnone a b ha hb).elim⟩

/-- The block takes so many of the indices just below, and so many of those just above. It goes
above the end only once all below are taken. -/
theorem grow_takes (dates : List α) (date : α) (n lower upper : Nat) :
    ∃ p q, p + q = n ∧ p ≤ lower ∧ (q = 0 ∨ upper + q ≤ dates.length ∨ p = lower) ∧
      ∀ i, i ∈ grow dates date n lower upper ↔
        lower - p ≤ i ∧ i < lower ∨ upper ≤ i ∧ i < upper + q := by
  induction n generalizing lower upper with
  | zero =>
    refine ⟨0, 0, rfl, Nat.zero_le _, .inl rfl, fun i ↦ ?_⟩
    simp only [grow, List.not_mem_nil, false_iff]
    omega
  | succ n ih =>
    rcases grow_succ dates date n lower upper with ⟨l, rfl, hg, -⟩ | ⟨hend, hg, -⟩
    · obtain ⟨p, q, hn, hp, hq, hmem⟩ := ih l upper
      refine ⟨p + 1, q, by omega, by omega, by omega, fun i ↦ ?_⟩
      rw [hg, List.mem_cons, hmem]
      omega
    · obtain ⟨p, q, hn, hp, hq, hmem⟩ := ih lower (upper + 1)
      refine ⟨p, q + 1, by omega, hp, by omega, fun i ↦ ?_⟩
      rw [hg, List.mem_cons, hmem]
      omega

theorem mem_grow {dates : List α} {date : α} {n lower upper i : Nat}
    (h : i ∈ grow dates date n lower upper) : i < lower ∨ upper ≤ i := by
  obtain ⟨p, q, -, -, -, hmem⟩ := grow_takes dates date n lower upper
  rw [hmem] at h
  omega

theorem lt_of_mem_grow {dates : List α} {date : α} {n lower upper i : Nat} (hle : lower ≤ upper)
    (hu : upper ≤ dates.length) (hn : n ≤ lower + (dates.length - upper))
    (h : i ∈ grow dates date n lower upper) : i < dates.length := by
  obtain ⟨p, q, hpq, -, hq, hmem⟩ := grow_takes dates date n lower upper
  rw [hmem] at h
  omega

theorem nodup_grow (dates : List α) (date : α) (n : Nat) {lower upper : Nat} (h : lower ≤ upper) :
    (grow dates date n lower upper).Nodup := by
  induction n generalizing lower upper with
  | zero => exact List.nodup_nil
  | succ n ih =>
    rcases grow_succ dates date n lower upper with ⟨l, rfl, hg, -⟩ | ⟨-, hg, -⟩ <;>
      rw [hg, List.nodup_cons]
    · refine ⟨fun hm ↦ ?_, ih (by omega)⟩
      have := mem_grow hm
      omega
    · refine ⟨fun hm ↦ ?_, ih (by omega)⟩
      have := mem_grow hm
      omega

theorem nodup_neighborhood (dates : List α) (date : α) (closest size : Nat) :
    (neighborhood dates date closest size).Nodup := by
  refine List.nodup_cons.2 ⟨fun h ↦ ?_, nodup_grow dates date _ (Nat.le_succ closest)⟩
  have := mem_grow h
  omega

theorem lt_of_mem_neighborhood {dates : List α} {date : α} {closest size i : Nat}
    (hc : closest < dates.length) (hs : size ≤ dates.length)
    (h : i ∈ neighborhood dates date closest size) : i < dates.length := by
  rcases List.mem_cons.1 h with rfl | h
  · exact hc
  · exact lt_of_mem_grow (Nat.le_succ closest) hc (by omega) h

theorem stretch_neighborhood (dates : List α) (date : α) (c : Nat) {size : Nat} (h : 0 < size) :
    ∃ first, ∀ i, i ∈ neighborhood dates date c size ↔ first ≤ i ∧ i < first + size := by
  obtain ⟨p, q, hn, hp, -, hmem⟩ := grow_takes dates date (size - 1) c (c + 1)
  refine ⟨c - p, fun i ↦ ?_⟩
  rw [neighborhood, List.mem_cons, hmem]
  omega

end OrbitReplay.Nearest
