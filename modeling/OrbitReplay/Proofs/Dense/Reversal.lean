import Mathlib.Data.List.Chain
import Mathlib.Data.List.Pairwise
import OrbitReplay.Proofs.Dense.Recorded
import OrbitReplay.Proofs.Tensor

namespace OrbitReplay.Dense

open Scalar
open OrbitReplay.Tensor (data_flip rows_flip raise_of_matrix length_rows length_data_of_shape
  flatten_rows)

variable {α : Type}

/-- The same values on the same span, which is entered from the other end. -/
structure Output.Opposite (o o' : Output α) : Prop where
  low : o'.low = o.low
  high : o'.high = o.high
  eval : o'.eval = o.eval
  starts : o.start = o.low ∧ o'.start = o.high ∨ o.start = o.high ∧ o'.start = o.low

namespace Steps

theorem join_reverse {times : List α} {states slopes : List (List α)}
    (hstates : states.length = times.length) (hslopes : slopes.length = times.length) :
    join times.reverse states.reverse slopes.reverse = (join times states slopes).reverse := by
  have hrows : states.length = slopes.length := hstates.trans hslopes.symm
  have hzip : times.length = (states.zip slopes).length := by
    rw [List.length_zip, ← hrows, Nat.min_self, hstates]
  rw [join, join, ← List.map_reverse, List.zip, List.reverse_zipWith hzip, List.zip,
    List.reverse_zipWith hrows]

theorem mem_join {times : List α} {states slopes : List (List α)} {b : Boundary α}
    (h : b ∈ join times states slopes) : b.time ∈ times ∧ b.state ∈ states ∧ b.slope ∈ slopes := by
  obtain ⟨⟨t, y, e⟩, hzip, rfl⟩ := List.mem_map.1 h
  obtain ⟨ht, hrest⟩ := List.of_mem_zip hzip
  exact ⟨ht, List.of_mem_zip hrest⟩

theorem map_time_join {times : List α} {states slopes : List (List α)}
    (hstates : states.length = times.length) (hslopes : slopes.length = times.length) :
    (join times states slopes).map Boundary.time = times := by
  have hle : times.length ≤ (states.zip slopes).length := by
    rw [List.length_zip, hstates, hslopes, Nat.min_self]
  rw [join, List.map_map]
  exact List.map_fst_zip hle

def flip (s : Steps α) : Steps α where
  width := s.width
  boundaries := s.boundaries.reverse
  two_le := by
    rw [List.length_reverse]
    exact s.two_le

theorem first_flip (s : Steps α) : s.flip.first = s.last := List.head_reverse _

theorem last_flip (s : Steps α) : s.flip.last = s.first := List.getLast_reverse _

/-- What holds between boundaries that follow each other holds between the first and the last. -/
theorem first_last_of_chain {R : Boundary α → Boundary α → Prop} {s : Steps α}
    (h : s.boundaries.IsChain R) (htrans : ∀ {a b c}, R a b → R b c → R a c) :
    R s.first s.last := by
  have htail : s.boundaries.tail ≠ [] := by
    have htwo := s.two_le
    rw [ne_eq, ← List.length_eq_zero_iff, List.length_tail]
    omega
  have : Trans R R R := ⟨htrans⟩
  rw [last, ← List.getLast_tail htail]
  exact h.pairwise.rel_head_tail (List.getLast_mem htail)

variable [Scalar α]

theorem all_gaps_iff {p : α → Bool} : ∀ times : List α,
    (gaps times).all p = true ↔ times.IsChain fun a b ↦ p (b - a) = true
  | [] => by simp [gaps]
  | [a] => by simp [gaps]
  | a :: b :: rest => by
    rw [gaps, List.all_cons, Bool.and_eq_true, all_gaps_iff (b :: rest), List.isChain_cons_cons]

theorem isMonotonic_iff {times : List α} : isMonotonic times = true ↔
    (times.IsChain fun a b ↦ ofNat 0 < b - a) ∨ times.IsChain fun a b ↦ b - a < ofNat 0 := by
  simp only [isMonotonic, Bool.or_eq_true, all_gaps_iff, decide_eq_true_eq]

/-- Reversed, the gaps are the opposite differences, so rising times fall and falling times rise. -/
theorem isMonotonic_reverse [Opposed α] (times : List α) :
    isMonotonic times.reverse = isMonotonic times := by
  rw [Bool.eq_iff_iff, isMonotonic_iff, isMonotonic_iff, List.isChain_reverse, List.isChain_reverse]
  simp only [zero_lt_sub_iff]
  exact Or.comm

section Ends

variable {s : Steps α}

theorem Finite.flip (h : s.Finite) : s.flip.Finite where
  time b hb := h.time b (List.mem_reverse.1 hb)
  state b hb := h.state b (List.mem_reverse.1 hb)
  slope b hb := h.slope b (List.mem_reverse.1 hb)

theorem start_of_isForward (hforward : s.isForward = true) {o : Output α}
    (ho : s.output = .ok o) : o.start = o.low := by
  obtain ⟨-, rfl⟩ := output_eq_ok_iff.1 ho
  exact (if_pos hforward).symm

theorem ascending_flip (h : s.flip.isForward = !s.isForward) : s.flip.ascending = s.ascending := by
  have hreverse : s.flip.boundaries.reverse = s.boundaries := List.reverse_reverse _
  rw [ascending, ascending, h, hreverse]
  cases s.isForward
  · rfl
  · rfl

theorem opposite_flip (hforward : s.flip.isForward = !s.isForward) :
    s.piecewise.Opposite s.flip.piecewise := by
  have hascending := ascending_flip hforward
  rw [piecewise, piecewise, first_flip, last_flip, hascending, hforward]
  cases s.isForward
  · exact ⟨rfl, rfl, rfl, .inr ⟨rfl, rfl⟩⟩
  · exact ⟨rfl, rfl, rfl, .inl ⟨rfl, rfl⟩⟩

variable [Opposed α]

/-- Between finite times a difference of the right sign is an order. -/
theorem Finite.chain (h : s.Finite) (hmono : isMonotonic (s.boundaries.map Boundary.time) = true) :
    (s.boundaries.IsChain fun a b ↦ a.time < b.time) ∨
      s.boundaries.IsChain fun a b ↦ b.time < a.time := by
  rw [isMonotonic_iff, List.isChain_map, List.isChain_map] at hmono
  refine hmono.imp (fun hrise ↦ ?_) fun hfall ↦ ?_
  · refine hrise.imp_of_mem_imp fun a b ha hb hlt ↦ ?_
    exact lt_of_zero_lt_sub (h.time a ha) (h.time b hb) hlt
  · refine hfall.imp_of_mem_imp fun a b ha hb hlt ↦ ?_
    exact lt_of_zero_lt_sub (h.time b hb) (h.time a ha) (zero_lt_sub_iff.2 hlt)

theorem Finite.ends (h : s.Finite) (hmono : isMonotonic (s.boundaries.map Boundary.time) = true) :
    s.first.time < s.last.time ∨ s.last.time < s.first.time := by
  rcases h.chain hmono with hrise | hfall
  · exact .inl (first_last_of_chain hrise Ordered.lt_trans)
  · exact .inr (first_last_of_chain hfall fun hab hbc ↦ Ordered.lt_trans hbc hab)

theorem Finite.isForward_flip (h : s.Finite)
    (hmono : isMonotonic (s.boundaries.map Boundary.time) = true) :
    s.flip.isForward = !s.isForward := by
  rw [isForward, isForward, first_flip, last_flip]
  rcases h.ends hmono with hlt | hlt
  · simp [hlt, Scalar.lt_asymm hlt]
  · simp [hlt, Scalar.lt_asymm hlt]

end Ends

section Arrays

variable {n m d p q : ℕ} {t states slopes : Tensor α} {s : Steps α}

theorem ofTensors_flip [Opposed α] (ht : t.shape = [n]) (hstates : states.shape = [m, d])
    (hslopes : slopes.shape = [p, q]) :
    ofTensors t.flip states.flip slopes.flip = (ofTensors t states slopes).map flip := by
  have hflip : states.flip.raise = states.flip := raise_of_matrix hstates
  have hflip' : slopes.flip.raise = slopes.flip := raise_of_matrix hslopes
  have htimes : t.flip.data = t.data.reverse := data_flip ht
  have hshape (u : Tensor α) : u.flip.shape = u.shape := rfl
  simp only [ofTensors, hflip, hflip', raise_of_matrix hstates, raise_of_matrix hslopes, hshape,
    ht, hstates, hslopes, htimes, isMonotonic_reverse, rows_flip hstates, rows_flip hslopes]
  split
  · rfl
  split
  · rfl
  split
  · rfl
  split
  · rfl
  next hm hp _ =>
    simp only [bne_iff_ne, ne_eq, not_not] at hm hp
    obtain ⟨rfl, rfl⟩ : p = m ∧ q = d := by simpa using hp
    subst hm
    have hlength : t.data.length = p := by rw [length_data_of_shape ht, volume, Nat.mul_one]
    have hjoin := join_reverse ((length_rows hstates).trans hlength.symm)
      ((length_rows hslopes).trans hlength.symm)
    simp only [hjoin, List.length_reverse]
    split
    · rfl
    · rfl

theorem ofTensors_eq_ok (hstates : states.shape = [m, d]) (hslopes : slopes.shape = [p, q])
    (h : ofTensors t states slopes = .ok s) :
    isMonotonic t.data = true ∧ s.boundaries = join t.data states.rows slopes.rows ∧
      states.rows.length = t.data.length ∧ slopes.rows.length = t.data.length := by
  simp only [ofTensors, raise_of_matrix hstates, raise_of_matrix hslopes, hstates, hslopes] at h
  split at h
  · next n ht =>
    split at h
    · cases h
    split at h
    · cases h
    split at h
    · cases h
    split at h
    · cases h
    split at h
    · cases h
      next hm hp hmono _ =>
      simp only [bne_iff_ne, ne_eq, not_not] at hm hp
      obtain ⟨rfl, rfl⟩ : p = m ∧ q = d := by simpa using hp
      subst hm
      have hlength : t.data.length = p := by rw [length_data_of_shape ht, volume, Nat.mul_one]
      refine ⟨by simpa using hmono, rfl, ?_, ?_⟩
      · rw [length_rows hstates, hlength]
      · rw [length_rows hslopes, hlength]
    · cases h
  · cases h

theorem times_of_ofTensors (hstates : states.shape = [m, d]) (hslopes : slopes.shape = [p, q])
    (h : ofTensors t states slopes = .ok s) : s.boundaries.map Boundary.time = t.data := by
  obtain ⟨-, hjoin, hlength, hlength'⟩ := ofTensors_eq_ok hstates hslopes h
  rw [hjoin, map_time_join hlength hlength']

theorem finite_of_ofTensors (hstates : states.shape = [m, d]) (hslopes : slopes.shape = [p, q])
    (h : ofTensors t states slopes = .ok s) (htimes : ∀ x ∈ t.data, isFinite x)
    (hstates' : ∀ x ∈ states.data, isFinite x) (hslopes' : ∀ x ∈ slopes.data, isFinite x) :
    s.Finite := by
  obtain ⟨-, hjoin, -, -⟩ := ofTensors_eq_ok hstates hslopes h
  rw [← flatten_rows hstates] at hstates'
  rw [← flatten_rows hslopes] at hslopes'
  refine ⟨fun b hb ↦ ?_, fun b hb x hx ↦ ?_, fun b hb x hx ↦ ?_⟩
  · exact htimes _ (mem_join (hjoin ▸ hb)).1
  · exact hstates' x (List.mem_flatten_of_mem (mem_join (hjoin ▸ hb)).2.1 hx)
  · exact hslopes' x (List.mem_flatten_of_mem (mem_join (hjoin ▸ hb)).2.2 hx)

/-- Of the two orders exactly one is by rising time, and both have the same values. -/
theorem opposite_of_ofTensors [Opposed α] (hstates : states.shape = [m, d])
    (hslopes : slopes.shape = [p, q]) (h : ofTensors t states slopes = .ok s) (hs : s.Finite) :
    s.flip.isForward = (!s.isForward) ∧
      ∃ o o', s.output = .ok o ∧ s.flip.output = .ok o' ∧ o.Opposite o' := by
  obtain ⟨hmono, -⟩ := ofTensors_eq_ok hstates hslopes h
  rw [← times_of_ofTensors hstates hslopes h] at hmono
  have hforward := hs.isForward_flip hmono
  exact ⟨hforward, _, _, output_eq_ok_iff.2 ⟨hs, rfl⟩, output_eq_ok_iff.2 ⟨hs.flip, rfl⟩,
    opposite_flip hforward⟩

end Arrays

end Steps

end OrbitReplay.Dense
