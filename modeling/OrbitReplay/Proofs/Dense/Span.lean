import OrbitReplay.Proofs.Binary64.Measure
import OrbitReplay.Proofs.Dense.Coherence

namespace OrbitReplay.Dense

open Scalar

variable {α : Type} [Scalar α]

namespace Output

def Tolerates (o : Output α) (t : α) : Prop :=
  o.low - o.tolerance ≤ t ∧ t ≤ o.high + o.tolerance

def Spans (o : Output α) (t : α) : Prop := o.low ≤ t ∧ t ≤ o.high

instance (o : Output α) (t : α) : Decidable (o.Spans t) := inferInstanceAs (Decidable (_ ∧ _))

instance (o : Output α) (t : α) : Decidable (o.Tolerates t) := inferInstanceAs (Decidable (_ ∧ _))

/-- There is a vector at every time, and also at what is not one. -/
def Answers (o : Output α) : Prop := ∀ t, ∃ raw, o.eval t = .ok raw

def scale (o : Output α) : α := larger (larger (ofNat 1) (abs o.low)) (abs o.high)

theorem tolerance_eq (o : Output α) : o.tolerance = ofNat 8 * epsilon * o.scale := rfl

variable {o : Output α} {t : α}

theorem Anchored.low_le_high [Ordered α] (ho : o.Anchored) : o.low ≤ o.high := by
  have hstart := number_of_isFinite ho.start
  have hlow : o.low ≤ o.start :=
    Scalar.le_of_not_lt hstart (number_of_isFinite ho.low) ho.low_start
  have hhigh : o.start ≤ o.high :=
    Scalar.le_of_not_lt (number_of_isFinite ho.high) hstart ho.start_high
  exact Scalar.le_trans hlow hhigh

theorem spans_clamp [Ordered α] (ho : o.Anchored) (ht : t == t) : o.Spans (o.clamp t) := by
  have hlow := number_of_isFinite ho.low
  have hhigh := number_of_isFinite ho.high
  have hraised : o.low ≤ larger t o.low := le_larger_right ht hlow
  have hnumber := number_of_le_right hraised
  exact ⟨smaller_of (P := (o.low ≤ ·)) hraised ho.low_le_high, smaller_le_right hnumber hhigh⟩

theorem clamp_of_not_number [Ordered α] (ht : ¬ t == t) : o.clamp t = t := by
  rw [clamp, larger_of_not_number ht, smaller_of_not_number ht]

/-- No comparison with what is not a number holds, so the check finds nothing wrong with it. -/
theorem isOutside_of_not_number [Ordered α] (ht : ¬ t == t) : o.isOutside t = false := by
  have hbelow : ¬ t < o.low - o.tolerance := fun h ↦ ht (number_left h)
  have habove : ¬ o.high + o.tolerance < t := fun h ↦ ht (number_right h)
  simp [isOutside, hbelow, habove]

variable [Margined α]

theorem isFinite_scale (ho : o.Anchored) : isFinite o.scale :=
  larger_of (P := (isFinite ·)) (larger_of (P := (isFinite ·)) Margined.isFinite_one
    (isFinite_abs ho.low)) (isFinite_abs ho.high)

theorem one_le_scale (o : Output α) : ofNat 1 ≤ o.scale := by
  have hone : (ofNat 1 : α) == ofNat 1 := number_of_isFinite Margined.isFinite_one
  have hlow : ofNat 1 ≤ larger (ofNat 1) (abs o.low) := le_larger_left hone
  exact Scalar.le_trans hlow (le_larger_left (number_of_le_right hlow))

theorem isFinite_tolerance (ho : o.Anchored) : isFinite o.tolerance :=
  Margined.isFinite_slack (isFinite_scale ho) o.one_le_scale

theorem isOutside_eq_false_iff (ho : o.Anchored) (ht : t == t) :
    o.isOutside t = false ↔ o.Tolerates t := by
  have htolerance := isFinite_tolerance ho
  have hbelow : o.low - o.tolerance == o.low - o.tolerance :=
    number_sub htolerance (number_of_isFinite ho.low)
  have habove : o.high + o.tolerance == o.high + o.tolerance :=
    (number_add_iff ho.high).2 (number_of_isFinite htolerance)
  simp only [isOutside, Bool.or_eq_false_iff, decide_eq_false_iff_not]
  constructor
  · rintro ⟨hlow, hhigh⟩
    exact ⟨Scalar.le_of_not_lt ht hbelow hlow, Scalar.le_of_not_lt habove ht hhigh⟩
  · rintro ⟨hlow, hhigh⟩
    exact ⟨Scalar.not_lt_of_le hlow, Scalar.not_lt_of_le hhigh⟩

end Output

theorem Steps.answers {s : Steps α} {o : Output α} (h : s.output = .ok o) : o.Answers := by
  obtain ⟨-, rfl⟩ := Steps.output_eq_ok_iff.1 h
  intro t
  exact ⟨_, rfl⟩

/-- Where the start can be evaluated there is a step, and then there is one for every time. -/
theorem Solution.answers {s : Solution α} {raw : List α} (h : s.eval s.start = .ok raw) :
    s.output.Answers := by
  have hsteps : 0 < s.steps.length := by
    rw [List.length_pos_iff]
    intro hnil
    simp [eval, hnil] at h
  intro t
  have hindex : s.segmentIndex t < s.steps.length := by
    simp only [segmentIndex]
    split <;> omega
  have htimes : s.segmentIndex t < s.times.length := by
    rw [times, List.length_cons, List.length_map]
    omega
  simp only [output, eval, List.getElem?_eq_getElem hindex, List.getElem?_eq_getElem htimes]
  exact ⟨_, rfl⟩

namespace Cursor

/-- A cursor over the output that stands at a time of the span, give or take the tolerance, if it
stands at a time at all. -/
structure Within (o : Output α) (c : Cursor α) : Prop where
  output : c.output = o
  tolerates : c.elapsed == c.elapsed → o.Tolerates (o.start + c.elapsed)

def Moves (c : Cursor α) (elapsed t : α) : Prop :=
  ∃ raw, c.output.eval (c.output.clamp t) = .ok raw ∧
    c.moveTo elapsed = (.ok (), { c with elapsed, state := raw, repositions := c.repositions + 1 })

variable {o : Output α} {c : Cursor α}

theorem exists_open (h : o.Answers) : ∃ c, open? o = .ok c := by
  obtain ⟨raw, hraw⟩ := h o.start
  exact ⟨_, open?_eq_ok_iff.2 ⟨raw, hraw, rfl⟩⟩

theorem moveTo_of_outside {elapsed t : α} (ht : c.output.start + elapsed = t)
    (h : c.output.isOutside t = true) :
    c.moveTo elapsed =
      (.error (Defect.outsideSpan t c.output.low c.output.high).failure, c) := by
  subst ht
  simp only [moveTo, h, if_true]

theorem moves_of_not_outside {elapsed t : α} (ho : c.output.Answers)
    (ht : c.output.start + elapsed = t) (h : c.output.isOutside t = false) :
    c.Moves elapsed t := by
  rcases c.moveTo_cases elapsed ht with ⟨hout, -⟩ | ⟨f, -, hf, -⟩ | ⟨raw, -, hraw, he⟩
  · exact absurd (h.symm.trans hout) (by decide)
  · obtain ⟨raw, hraw⟩ := ho (c.output.clamp t)
    exact absurd (hraw.symm.trans hf) (by simp)
  · exact ⟨raw, hraw, he⟩

variable [Margined α]

theorem within_of_open (ho : o.Anchored) (h : open? o = .ok c) : c.Within o := by
  obtain ⟨raw, -, rfl⟩ := open?_eq_ok_iff.1 h
  refine ⟨rfl, fun _ ↦ ?_⟩
  have hsum : Alike o.start (o.start + ofNat 0) :=
    (alike_of_beq (Tolerant.add_zero (number_of_isFinite ho.start))).symm
  have hnumber : o.start + ofNat 0 == o.start + ofNat 0 :=
    (number_add_iff ho.start).2 Tolerant.zero_beq_zero
  exact (Output.isOutside_eq_false_iff ho hnumber).1 (Output.isOutside_eq_false ho
    (mt (lt_congr_left hsum).2 ho.low_start) (mt (lt_congr_right hsum).2 ho.start_high))

theorem Within.moveTo (ho : o.Anchored) (h : c.Within o) (elapsed : α) :
    (c.moveTo elapsed).2.Within o := by
  rcases c.moveTo_cases elapsed rfl with ⟨-, he⟩ | ⟨f, -, -, he⟩ | ⟨raw, hin, -, he⟩
  · rwa [he]
  · rwa [he]
  · rw [he]
    rw [h.output] at hin
    exact ⟨h.output, fun hn ↦
      (Output.isOutside_eq_false_iff ho ((number_add_iff ho.start).2 hn)).1 hin⟩

end Cursor

/-- What holds of every cursor over the output after any moves of it and of its copies. -/
def Output.Confines (o : Output α) : Prop :=
  ∀ (c₀ : Cursor α) (rs : List (Request α)), Cursor.open? o = .ok c₀ → ∀ c ∈ run [c₀] rs,
    (c.elapsed == c.elapsed → o.Tolerates (o.start + c.elapsed)) ∧
    ∀ elapsed t, o.start + elapsed = t →
      (elapsed == elapsed ∧ ¬ o.Tolerates t ∧
        c.moveTo elapsed = (.error (Defect.outsideSpan t o.low o.high).failure, c)) ∨
      (elapsed == elapsed ∧ o.Tolerates t ∧ o.Spans (o.clamp t) ∧ c.Moves elapsed t) ∨
      (¬ elapsed == elapsed ∧ ¬ o.Spans (o.clamp t) ∧ o.clamp t = t ∧ c.Moves elapsed t)

theorem Output.Anchored.confines [Margined α] {o : Output α} (ho : o.Anchored)
    (hanswers : ∀ c, Cursor.open? o = .ok c → o.Answers) : o.Confines := by
  intro c₀ rs hopen c hc
  have hwithin : c.Within o := by
    refine forall_run (fun h elapsed ↦ h.moveTo ho elapsed) (fun d hd ↦ ?_) rs c hc
    rw [List.mem_singleton.1 hd]
    exact Cursor.within_of_open ho hopen
  have hoc := hwithin.output
  have heval : c.output.Answers := hoc ▸ hanswers c₀ hopen
  refine ⟨hwithin.tolerates, fun elapsed t ht ↦ ?_⟩
  have ht' : c.output.start + elapsed = t := by rw [hoc, ht]
  have hnumber : t == t ↔ elapsed == elapsed := ht ▸ number_add_iff ho.start
  by_cases hn : elapsed == elapsed
  · have hiff := Output.isOutside_eq_false_iff ho (hnumber.2 hn)
    cases hout : o.isOutside t with
    | true =>
      refine .inl ⟨hn, fun h ↦ ?_, ?_⟩
      · exact absurd (hout.symm.trans (hiff.2 h)) (by decide)
      · rw [← hoc] at hout ⊢
        exact Cursor.moveTo_of_outside ht' hout
    | false =>
      refine .inr (.inl ⟨hn, hiff.1 hout, Output.spans_clamp ho (hnumber.2 hn), ?_⟩)
      exact Cursor.moves_of_not_outside heval ht' (hoc ▸ hout)
  · have hclamp : o.clamp t = t := Output.clamp_of_not_number (mt hnumber.1 hn)
    have hout : o.isOutside t = false := Output.isOutside_of_not_number (mt hnumber.1 hn)
    refine .inr (.inr ⟨hn, fun h ↦ ?_, hclamp, ?_⟩)
    · rw [hclamp] at h
      exact hn (hnumber.1 (number_of_le_left h.2))
    · exact Cursor.moves_of_not_outside heval ht' (hoc ▸ hout)

/-- Of all elapsed times only what is not a number leads out of a finite span: over stored steps,
over recorded segments, and over whatever else has a vector at every time. -/
theorem moves_stay_in_span [Margined α] :
    (∀ (s : Steps α) (o : Output α), s.output = .ok o → o.Confines) ∧
      (∀ s : Solution α, isFinite s.low → isFinite s.high → s.output.Confines) ∧
      ∀ o : Output α, o.Anchored → o.Answers → o.Confines := by
  refine ⟨fun s o h ↦ (Steps.anchored h).confines fun _ _ ↦ Steps.answers h,
    fun s hlow hhigh ↦ ?_, fun o ho hanswers ↦ ho.confines fun _ _ ↦ hanswers⟩
  refine (Solution.anchored hlow hhigh).confines fun c hopen ↦ ?_
  obtain ⟨raw, hraw, -⟩ := Cursor.open?_eq_ok_iff.1 hopen
  exact Solution.answers hraw

/-- Of a step that goes back from two to one, a time was asked for just beyond its end and then one
further out. The copy stands where the first was granted; it was shown the vector at the end. -/
theorem moves_stay_in_span_binary64 :
    ∃ o : Output Float, ∃ c₀ : Cursor Float,
      Steps.output ⟨1, [⟨2.0, [0.0], [1.0]⟩, ⟨1.0, [1.0], [1.0]⟩], by decide⟩ = .ok o ∧
      Cursor.open? o = .ok c₀ ∧
      ∃ c ∈ run [c₀] [.move 0 (-1.0000000000000018), .move 0 (-1.1), .copy 0],
        c.elapsed == -1.0000000000000018 ∧ o.Tolerates (o.start + c.elapsed) ∧
          ¬ o.Spans (o.start + c.elapsed) ∧ c.state == [1.0] := by
  refine ⟨_, _, rfl, rfl, List.get _ ⟨1, by decide +kernel⟩, List.get_mem _ _, by decide +kernel,
    ?_, by decide +kernel, by decide +kernel⟩
  exact ((moves_stay_in_span (α := Float)).1
    ⟨1, [⟨2.0, [0.0], [1.0]⟩, ⟨1.0, [1.0], [1.0]⟩], by decide⟩ _ rfl _ _ rfl _
    (List.get_mem _ _)).1 (by decide +kernel)

/-- Over a step from zero to one, a move to what is not a number succeeds and leaves the span. -/
theorem move_leaves_span :
    ∃ o : Output Float, ∃ c₀ : Cursor Float,
      Steps.output ⟨1, [⟨0.0, [0.0], [1.0]⟩, ⟨1.0, [1.0], [1.0]⟩], by decide⟩ = .ok o ∧
      Cursor.open? o = .ok c₀ ∧ (c₀.moveTo (0.0 / 0.0)).1.isOk ∧
      ¬ o.Spans (o.clamp (o.start + 0.0 / 0.0)) ∧
      ¬ o.Tolerates (o.start + (c₀.moveTo (0.0 / 0.0)).2.elapsed) :=
  ⟨_, _, rfl, rfl, by decide +kernel, by decide +kernel, by decide +kernel⟩

end OrbitReplay.Dense
