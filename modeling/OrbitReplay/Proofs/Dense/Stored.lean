import Mathlib.Order.Interval.Set.UnorderedInterval
import OrbitReplay.Proofs.Dense.Pieces
import OrbitReplay.Proofs.Dense.Reversal
import OrbitReplay.Proofs.Dense.Span

namespace OrbitReplay.Dense

open Polynomial Scalar
open OrbitReplay.Tensor (length_of_mem_rows length_rows matrix_of_raise)

namespace Steps

section Arrays

variable {α : Type}

theorem getElem?_join {times : List α} {rows slopes : List (List α)} {i : ℕ} {b : Boundary α} :
    (join times rows slopes)[i]? = some b ↔
      times[i]? = some b.time ∧ rows[i]? = some b.state ∧ slopes[i]? = some b.slope := by
  rw [join, List.getElem?_map, Option.map_eq_some_iff]
  constructor
  · rintro ⟨⟨x, y, d⟩, hzip, rfl⟩
    obtain ⟨hx, hrest⟩ := List.getElem?_zip_eq_some.1 hzip
    exact ⟨hx, List.getElem?_zip_eq_some.1 hrest⟩
  · rintro ⟨hx, hy, hd⟩
    exact ⟨(b.time, b.state, b.slope),
      List.getElem?_zip_eq_some.2 ⟨hx, List.getElem?_zip_eq_some.2 ⟨hy, hd⟩⟩, rfl⟩

theorem ends_of_chain {R : Boundary α → Boundary α → Prop} {s : Steps α} {b : Boundary α}
    (h : s.boundaries.IsChain R) (htrans : ∀ {a b c}, R a b → R b c → R a c)
    (hrefl : ∀ {a}, R a a) (hb : b ∈ s.boundaries) : R s.first b ∧ R b s.last := by
  have : Trans R R R := ⟨htrans⟩
  exact ⟨h.pairwise.rel_head_of_rel_head_head hb hrefl,
    h.pairwise.rel_getLast_of_rel_getLast_getLast hb hrefl⟩

theorem mem_ascending [Scalar α] {s : Steps α} {b : Boundary α} :
    b ∈ s.ascending ↔ b ∈ s.boundaries := by
  rw [ascending]
  split
  · rfl
  · exact List.mem_reverse

variable [Scalar α] {t states slopes : Tensor α} {s : Steps α}

theorem shapes_of_ofTensors (h : ofTensors t states slopes = .ok s) :
    ∃ n, t.shape = [n] ∧ states.shape = [n, s.width] ∧ slopes.shape = [n, s.width] := by
  simp only [ofTensors] at h
  split at h
  · next n ht =>
    split at h
    · cases h
    next htwo =>
    split at h
    · next m width hstates =>
      split at h
      · cases h
      split at h
      · cases h
      split at h
      · cases h
      split at h
      · cases h
        next hm hp _ _ =>
        simp only [bne_iff_ne, ne_eq, not_not] at hm hp
        subst hm
        have htwo := Nat.not_lt.1 htwo
        exact ⟨m, ht, matrix_of_raise hstates htwo, matrix_of_raise (hp.trans hstates) htwo⟩
      · cases h
    · cases h
  · cases h

structure Stores (t states slopes : Tensor α) (s : Steps α) : Prop where
  monotonic : isMonotonic (s.boundaries.map Boundary.time) = true
  times : s.boundaries.map Boundary.time = t.data
  boundaries : s.boundaries = join t.data states.rows slopes.rows
  length_states : states.rows.length = t.data.length
  length_slopes : slopes.rows.length = t.data.length
  width_states : ∀ row ∈ states.rows, row.length = s.width
  width_slopes : ∀ row ∈ slopes.rows, row.length = s.width

theorem stores_of_ofTensors (h : ofTensors t states slopes = .ok s) : Stores t states slopes s := by
  obtain ⟨n, -, hstates, hslopes⟩ := shapes_of_ofTensors h
  obtain ⟨hmono, hjoin, hlength, hlength'⟩ := ofTensors_eq_ok hstates hslopes h
  have htimes := times_of_ofTensors hstates hslopes h
  exact ⟨htimes ▸ hmono, htimes, hjoin, hlength, hlength', length_of_mem_rows hstates,
    length_of_mem_rows hslopes⟩

namespace Stores

variable (h : Stores t states slopes s)

include h

theorem getElem?_boundaries {i : ℕ} {b : Boundary α} : s.boundaries[i]? = some b ↔
    t.data[i]? = some b.time ∧ states.rows[i]? = some b.state ∧ slopes.rows[i]? = some b.slope := by
  rw [h.boundaries, getElem?_join]

theorem exists_boundary {i : ℕ} {x : α} (hi : t.data[i]? = some x) :
    ∃ b ∈ s.ascending, b.time = x ∧ states.rows[i]? = some b.state := by
  obtain ⟨hlt, -⟩ := List.getElem?_eq_some_iff.1 hi
  have hrow := List.getElem?_eq_getElem (h.length_states.symm ▸ hlt)
  have hslope := List.getElem?_eq_getElem (h.length_slopes.symm ▸ hlt)
  have hget : s.boundaries[i]? = some ⟨x, _, _⟩ := h.getElem?_boundaries.2 ⟨hi, hrow, hslope⟩
  exact ⟨_, mem_ascending.2 (List.mem_of_getElem? hget), rfl, hrow⟩

end Stores

theorem Finite.rising [Opposed α] (h : s.Finite)
    (hmono : isMonotonic (s.boundaries.map Boundary.time) = true) :
    s.ascending.Pairwise fun a b ↦ a.time < b.time := by
  have : Trans (fun a b : Boundary α ↦ a.time < b.time) (fun a b : Boundary α ↦ a.time < b.time)
      fun a b : Boundary α ↦ a.time < b.time := ⟨Ordered.lt_trans⟩
  refine List.IsChain.pairwise ?_
  rcases h.chain hmono with hrise | hfall
  · have hforward : s.isForward = true :=
      decide_eq_true (first_last_of_chain hrise Ordered.lt_trans)
    rwa [ascending, if_pos hforward]
  · have hback : s.last.time < s.first.time :=
      first_last_of_chain hfall fun hab hbc ↦ Ordered.lt_trans hbc hab
    have hforward : ¬ s.isForward = true := fun hf ↦ Scalar.lt_asymm hback (of_decide_eq_true hf)
    rwa [ascending, if_neg hforward, List.isChain_reverse]

end Arrays

variable {t states slopes : Tensor ℚ} {s : Steps ℚ} {x : ℚ}

theorem finite_rat (s : Steps ℚ) : s.Finite :=
  ⟨fun _ _ ↦ rfl, fun _ _ _ _ ↦ rfl, fun _ _ _ _ ↦ rfl⟩

theorem Stores.stepped (h : Stores t states slopes s) : Stepped s.width s.ascending := by
  have hmem {b : Boundary ℚ} (hb : b ∈ s.ascending) : b ∈ join t.data states.rows slopes.rows :=
    h.boundaries ▸ mem_ascending.1 hb
  refine ⟨?_, (finite_rat s).rising h.monotonic,
    fun hb ↦ h.width_states _ (mem_join (hmem hb)).2.1,
    fun hb ↦ h.width_slopes _ (mem_join (hmem hb)).2.2⟩
  rw [ascending]
  split
  · exact s.two_le
  · rw [List.length_reverse]
    exact s.two_le

theorem spans_iff : s.piecewise.Spans x ↔ x ∈ Set.uIcc s.first.time s.last.time := by
  rw [Output.Spans, piecewise]
  by_cases hforward : s.isForward = true
  · rw [if_pos hforward, if_pos hforward, Set.uIcc_of_le (le_of_lt (of_decide_eq_true hforward))]
    rfl
  · rw [if_neg hforward, if_neg hforward,
      Set.uIcc_of_ge (not_lt.1 fun hlt ↦ hforward (decide_eq_true hlt))]
    rfl

/-- A raw vector for a time as it was stored: of a boundary there, and of every polynomial that the
boundaries follow in some component. -/
structure Recalled (t states slopes : Tensor ℚ) (time : ℚ) (raw : List ℚ) : Prop where
  boundary {i : ℕ} : t.data[i]? = some time → states.rows[i]? = some raw
  component {k : ℕ} {p : ℚ[X]} : p.natDegree ≤ 3 →
    (∀ (i : ℕ) (a : ℚ) (row slope : List ℚ), t.data[i]? = some a →
      states.rows[i]? = some row → slopes.rows[i]? = some slope →
      row[k]? = some (p.eval a) ∧ slope[k]? = some (p.derivative.eval a)) →
    raw[k]? = some (p.eval time)

theorem Stores.recalled (h : Stores t states slopes s) (hx : s.piecewise.Spans x) :
    Recalled t states slopes x (evalPieces (Piece.ofBoundaries s.ascending) x) := by
  refine ⟨fun {i} hi ↦ ?_, fun {k p} hp hfollows ↦ ?_⟩
  · obtain ⟨b, hb, rfl, hrow⟩ := h.exists_boundary hi
    rw [hrow, h.stepped.eval_boundary hb]
  have hall : ∀ b ∈ s.ascending, b.state[k]? = some (p.eval b.time) ∧
      b.slope[k]? = some (p.derivative.eval b.time) := by
    intro b hb
    obtain ⟨i, hi⟩ := List.mem_iff_getElem?.1 (mem_ascending.1 hb)
    obtain ⟨htime, hrow, hslope⟩ := h.getElem?_boundaries.1 hi
    exact hfollows i _ _ _ htime hrow hslope
  have hfirst : s.first ∈ s.ascending := mem_ascending.2 (List.head_mem s.ne_nil)
  have hlast : s.last ∈ s.ascending := mem_ascending.2 (List.getLast_mem s.ne_nil)
  have hends := Set.mem_uIcc.1 (spans_iff.1 hx)
  refine h.stepped.eval_component hp (fun b hb ↦ (hall b hb).1) (fun b hb ↦ (hall b hb).2) ?_ ?_
  · rcases hends with hle | hle
    · exact ⟨_, hfirst, hle.1⟩
    · exact ⟨_, hlast, hle.1⟩
  · rcases hends with hle | hle
    · exact ⟨_, hlast, hle.2⟩
    · exact ⟨_, hfirst, hle.2⟩

theorem Stores.ends (h : Stores t states slopes s) :
    t.data.head? = some s.first.time ∧ t.data.getLast? = some s.last.time ∧
      ∀ a ∈ t.data, a ∈ Set.uIcc s.first.time s.last.time := by
  rw [← h.times]
  refine ⟨?_, ?_, fun a ha ↦ ?_⟩
  · rw [List.head?_map, List.head?_eq_some_head s.ne_nil]
    rfl
  · rw [List.getLast?_map, List.getLast?_eq_some_getLast s.ne_nil]
    rfl
  · obtain ⟨b, hb, rfl⟩ := List.mem_map.1 ha
    rcases (finite_rat s).chain h.monotonic with hrise | hfall
    · exact Set.mem_uIcc.2 (.inl (ends_of_chain (R := fun x y ↦ x.time ≤ y.time)
        (hrise.imp fun _ _ ↦ le_of_lt) le_trans le_rfl hb))
    · exact Set.mem_uIcc.2 (.inr (ends_of_chain (R := fun x y ↦ y.time ≤ x.time)
        (hfall.imp fun _ _ ↦ le_of_lt) ge_trans le_rfl hb).symm)

/-- Wherever a cursor and its copies stand, they show what was stored, and each of them can be moved
to every time of the span. -/
theorem stored_steps_reproduced {t states slopes : Tensor ℚ} {s : Steps ℚ}
    (h : ofTensors t states slopes = .ok s) :
    ∃ o c₀ first last, s.output = .ok o ∧ Cursor.open? o = .ok c₀ ∧
      t.data.head? = some first ∧ t.data.getLast? = some last ∧
      (∀ time ∈ t.data, time ∈ Set.uIcc first last) ∧
      ∀ rs, ∀ c ∈ run [c₀] rs, ∀ time ∈ Set.uIcc first last, ∀ elapsed, elapsed = time - first →
        ∃ raw, Recalled t states slopes time raw ∧ (c.elapsed = elapsed → c.state = raw) ∧
          c.moveTo elapsed =
            (.ok (), { c with elapsed, state := raw, repositions := c.repositions + 1 }) := by
  have houtput : s.output = .ok s.piecewise := output_eq_ok_iff.2 ⟨finite_rat s, rfl⟩
  have hanchored := anchored houtput
  obtain ⟨c₀, hopen⟩ := Cursor.exists_open (answers houtput)
  have hstores := stores_of_ofTensors h
  obtain ⟨hfirst, hlast, hwithin⟩ := hstores.ends
  refine ⟨_, c₀, _, _, houtput, hopen, hfirst, hlast, hwithin, ?_⟩
  rintro rs c hc time hspan elapsed rfl
  have hcoherent : c.Coherent s.piecewise := by
    refine forall_run (fun hd e ↦ hd.moveTo e) (fun d hd ↦ ?_) rs c hc
    rw [List.mem_singleton.1 hd]
    exact Cursor.coherent_of_open hanchored.rooted hopen
  have hspans : s.piecewise.Spans time := spans_iff.2 hspan
  have hlow : ¬ time < s.piecewise.low := not_lt.2 hspans.1
  have hhigh : ¬ s.piecewise.high < time := not_lt.2 hspans.2
  have hclamp : s.piecewise.clamp time = time := Output.clamp_of_between hlow hhigh
  have htime : s.piecewise.start + (time - s.first.time) = time := add_sub_cancel _ _
  refine ⟨_, hstores.recalled hspans, fun hstands ↦ ?_, ?_⟩
  · obtain ⟨raw, heval, halike, -⟩ := hcoherent.shown
    rw [hstands, htime, hclamp] at heval
    cases heval
    exact (alikeAll_rat.1 halike).symm
  · rw [Cursor.moveTo_eq_ok_iff, hcoherent.output, htime, hclamp]
    exact ⟨_, Output.isOutside_eq_false hanchored hlow hhigh, rfl, rfl⟩

/-- Two steps backward in time, of a cube and of a component with a kink. A new cursor is moved to
the boundary in between, or to the middle of the last step. -/
theorem stored_steps_reproduced_backward :
    ∃ (s : Steps ℚ) (o : Output ℚ) (c₀ : Cursor ℚ),
      ofTensors ⟨[3], [2, 1, 0], rfl⟩ ⟨[3, 2], [8, 0, 1, 1, 0, 5], rfl⟩
        ⟨[3, 2], [12, 0, 3, 2, 0, 0], rfl⟩ = .ok s ∧ s.output = .ok o ∧ Cursor.open? o = .ok c₀ ∧
      (c₀.moveTo (1 - 2)).2.state = [1, 1] ∧
      (c₀.moveTo (1 / 2 - 2)).2.state[0]? = some ((X ^ 3 : ℚ[X]).eval (1 / 2)) := by
  have hok : (ofTensors ⟨[3], [2, 1, (0 : ℚ)], rfl⟩ ⟨[3, 2], [8, 0, 1, 1, 0, 5], rfl⟩
      ⟨[3, 2], [12, 0, 3, 2, 0, 0], rfl⟩).isOk = true := by decide +kernel
  cases hs : ofTensors ⟨[3], [2, 1, (0 : ℚ)], rfl⟩ ⟨[3, 2], [8, 0, 1, 1, 0, 5], rfl⟩
      ⟨[3, 2], [12, 0, 3, 2, 0, 0], rfl⟩ with
  | error d =>
    rw [hs] at hok
    cases hok
  | ok s => ?_
  obtain ⟨o, c₀, first, last, ho, hopen, hfirst, hlast, hwithin, hmoves⟩ :=
    stored_steps_reproduced hs
  obtain rfl : first = 2 := Option.some.inj (hfirst.symm.trans rfl)
  obtain rfl : last = 0 := Option.some.inj (hlast.symm.trans rfl)
  have hnew : c₀ ∈ run [c₀] [] := List.mem_singleton_self c₀
  refine ⟨s, o, c₀, rfl, ho, hopen, ?_, ?_⟩
  · obtain ⟨raw, hrecalled, -, hmove⟩ := hmoves [] c₀ hnew 1 (hwithin 1 (by simp)) _ rfl
    have hrow : some [(1 : ℚ), 1] = some raw := hrecalled.boundary (i := 1) rfl
    rw [hmove]
    exact (Option.some.inj hrow).symm
  · have hspan : (1 / 2 : ℚ) ∈ Set.uIcc 2 0 := Set.mem_uIcc.2 (.inr ⟨by norm_num, by norm_num⟩)
    obtain ⟨raw, hrecalled, -, hmove⟩ := hmoves [] c₀ hnew (1 / 2) hspan _ rfl
    rw [hmove]
    refine hrecalled.component (natDegree_X_pow_le 3) fun i a row slope ha hrow hslope ↦ ?_
    match i with
    | 0 | 1 | 2 =>
      cases ha
      cases hrow
      cases hslope
      norm_num
    | i + 3 => cases ha

end Steps

end OrbitReplay.Dense
