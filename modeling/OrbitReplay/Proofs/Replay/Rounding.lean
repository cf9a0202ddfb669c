import OrbitReplay.Proofs.Dense.Span
import OrbitReplay.Proofs.Replay.Position

namespace OrbitReplay.Dense

open Scalar

variable {α : Type} [Scalar α]

namespace Output

/-- Neither the way from a date to a time nor the margin around the span leaves the range. -/
structure InRange (o : Output α) (start date : α) : Prop where
  elapsed : isFinite (date - start)
  time : isFinite (o.start + (date - start))
  below : isFinite (o.low - o.tolerance)
  above : isFinite (o.high + o.tolerance)

variable [Measured α] {o : Output α} {date t : α}

def size (o : Output α) : ℚ := max 1 (max |value o.low| |value o.high|)

theorem size_pos (o : Output α) : 0 < o.size := zero_lt_one.trans_le (le_max_left _ _)

theorem value_scale (ho : o.Anchored) : value o.scale = o.size := by
  have hlow := isFinite_abs ho.low
  have hhigh := isFinite_abs ho.high
  have hinner : isFinite (larger (ofNat 1) (abs o.low)) :=
    larger_of (P := (isFinite ·)) Margined.isFinite_one hlow
  rw [scale, value_larger hinner hhigh, value_larger Margined.isFinite_one hlow,
    Measured.value_one, Measured.value_abs ho.low, Measured.value_abs ho.high, max_assoc, size]

theorem value_tolerance (ho : o.Anchored) : value o.tolerance = o.size / 2 ^ 49 := by
  rw [tolerance_eq, Measured.value_slack (isFinite_scale ho) o.one_le_scale, value_scale ho]

theorem abs_value_low_le (o : Output α) : |value o.low| ≤ o.size :=
  (le_max_left _ _).trans (le_max_right _ _)

theorem abs_value_high_le (o : Output α) : |value o.high| ≤ o.size :=
  (le_max_right _ _).trans (le_max_right _ _)

theorem isFinite_of_spans (ho : o.Anchored) (h : o.Spans t) : isFinite t :=
  isFinite_of_le_of_le ho.low ho.high h.1 h.2

theorem value_of_spans (ho : o.Anchored) (h : o.Spans t) :
    value o.low ≤ value t ∧ value t ≤ value o.high := by
  have ht := isFinite_of_spans ho h
  exact ⟨(le_iff_value ho.low ht).1 h.1, (le_iff_value ht ho.high).1 h.2⟩

theorem abs_value_le_size (ho : o.Anchored) (h : o.Spans t) : |value t| ≤ o.size := by
  obtain ⟨hlow, hhigh⟩ := value_of_spans ho h
  exact (abs_le_max_abs_abs hlow hhigh).trans (le_max_right _ _)

theorem spans_start (ho : o.Anchored) : o.Spans o.start := by
  have hstart := number_of_isFinite ho.start
  exact ⟨Scalar.le_of_not_lt hstart (number_of_isFinite ho.low) ho.low_start,
    Scalar.le_of_not_lt (number_of_isFinite ho.high) hstart ho.start_high⟩

/-- The margin is rounded too, but it stays three times as wide as the error. -/
theorem value_low_sub_tolerance (ho : o.Anchored) (h : isFinite (o.low - o.tolerance)) :
    value (o.low - o.tolerance) ≤ value o.low - o.size / 2 ^ 51 := by
  have herror := value_sub_error ho.low (isFinite_tolerance ho) h
  have hlow := o.abs_value_low_le
  have hpos := o.size_pos
  rw [value_tolerance ho] at herror
  have hwide : |value o.low - o.size / 2 ^ 49| ≤ 2 * o.size := by
    rw [abs_le] at hlow ⊢
    constructor <;> linarith
  rw [abs_le] at herror
  linarith

theorem value_high_add_tolerance (ho : o.Anchored) (h : isFinite (o.high + o.tolerance)) :
    value o.high + o.size / 2 ^ 51 ≤ value (o.high + o.tolerance) := by
  have herror := value_add_error ho.high (isFinite_tolerance ho) h
  have hhigh := o.abs_value_high_le
  have hpos := o.size_pos
  rw [value_tolerance ho] at herror
  have hwide : |value o.high + o.size / 2 ^ 49| ≤ 2 * o.size := by
    rw [abs_le] at hhigh ⊢
    constructor <;> linarith
  rw [abs_le] at herror
  linarith

theorem value_time_error (ho : o.Anchored) (hd : o.Spans date) (hr : o.InRange o.start date) :
    |value (o.start + (date - o.start)) - value date| ≤ o.size / 2 ^ 51 :=
  value_offset_back (isFinite_of_spans ho hd) ho.start hr.elapsed hr.time (abs_value_le_size ho hd)
    (abs_value_le_size ho (spans_start ho))

theorem tolerates_time (ho : o.Anchored) (hd : o.Spans date) (hr : o.InRange o.start date) :
    o.Tolerates (o.start + (date - o.start)) := by
  have herror := abs_le.1 (value_time_error ho hd hr)
  obtain ⟨hlow, hhigh⟩ := value_of_spans ho hd
  have hbelow := value_low_sub_tolerance ho hr.below
  have habove := value_high_add_tolerance ho hr.above
  refine ⟨(le_iff_value hr.below hr.time).2 ?_, (le_iff_value hr.time hr.above).2 ?_⟩ <;> linarith

/-- Bringing a time to the span brings it no further from a date of the span. -/
theorem value_clamp_error (ho : o.Anchored) (hd : o.Spans date) (ht : isFinite t) :
    |value (o.clamp t) - value date| ≤ |value t - value date| := by
  obtain ⟨hlow, hhigh⟩ := value_of_spans ho hd
  have hraised : isFinite (larger t o.low) := larger_of (P := (isFinite ·)) ht ho.low
  rw [clamp, value_smaller hraised ho.high, value_larger ht ho.low]
  calc |min (max (value t) (value o.low)) (value o.high) - value date|
    _ = |min (max (value t) (value o.low)) (value o.high) -
          min (max (value date) (value o.low)) (value o.high)| := by
      rw [max_eq_left hlow, min_eq_left hhigh]
    _ ≤ |max (value t) (value o.low) - max (value date) (value o.low)| :=
      (abs_min_sub_min_le_max _ _ _ _).trans_eq
        (by rw [sub_self, abs_zero, max_eq_left (abs_nonneg _)])
    _ ≤ |value t - value date| := abs_max_sub_max_le_abs _ _ _

end Output

structure Cursor.Fresh (o : Output α) (c : Cursor α) : Prop where
  anchored : o.Anchored
  answers : o.Answers
  opened : open? o = .ok c

theorem Source.Unmoved.fresh [Congruent α] {c : Cursor α} (h : (cursor c).Unmoved) :
    c.Fresh c.output := by
  cases h with
  | steps ho hc =>
    obtain ⟨raw, -, rfl⟩ := Cursor.open?_eq_ok_iff.1 hc
    exact ⟨Steps.anchored ho, Steps.answers ho, hc⟩
  | solution hlow hhigh hc =>
    obtain ⟨raw, hstart, rfl⟩ := Cursor.open?_eq_ok_iff.1 hc
    exact ⟨Solution.anchored hlow hhigh, Solution.answers hstart, hc⟩

end OrbitReplay.Dense

namespace OrbitReplay.Replay

open Scalar
open OrbitReplay.Dense (Brings Cursor Model Output Source)

variable {α : Type} [Scalar α]

namespace Engine

def Reads (o : Output α) (e : Engine (Source α) α) : Prop :=
  ∃ c, e.model = .cursor c ∧ c.Coherent o

theorem Reads.move {o : Output α} {e : Engine (Source α) α} (h : e.Reads o) (elapsed : α) :
    Reads o { e with model := (Model.moveTo elapsed e.model).2 } := by
  obtain ⟨c, hm, hc⟩ := h
  refine ⟨(c.moveTo elapsed).2, ?_, hc.moveTo elapsed⟩
  rw [hm]
  rfl

/-- An engine whose dates are the times of the output under it. -/
structure Over (o : Output α) (e : Engine (Source α) α) : Prop where
  start : e.start == o.start
  low : e.low == o.low
  high : e.high == o.high
  reads : e.Reads o

theorem invariant_over (o : Output α) : Invariant (Over o) :=
  .ofModel (fun h elapsed ↦ ⟨h.start, h.low, h.high, h.reads.move elapsed⟩)
    fun h ↦ ⟨h.start, h.low, h.high, h.reads⟩

variable {o : Output α} {e : Engine (Source α) α} {date : α}

/-- Where the check of the span lets the time for a date through, the raw vector is the recorded
one. -/
theorem rawAt_of_reads [Congruent α] (ho : o.Anchored) (hanswers : o.Answers) (h : e.Reads o)
    (hc : e.covers date = true) (hout : o.isOutside (o.start + (date - e.start)) = false) :
    ∃ raw raw', o.eval (o.clamp (o.start + (date - e.start))) = .ok raw ∧
      (e.rawAt date).1 = .ok raw' ∧ AlikeAll raw raw' := by
  obtain ⟨c, hm, hcoherent⟩ := h
  obtain ⟨raw, hraw⟩ := hanswers (o.clamp (o.start + (date - e.start)))
  have htime : (Model.time e.model : Except (Failure α) α) = .ok c.elapsed := by
    rw [hm]
    rfl
  by_cases he : c.elapsed == date - e.start
  · have hshown : (Model.state e.model : Except (Failure α) (List α)) = .ok c.state := by
      rw [hm]
      rfl
    obtain ⟨raw', hraw', halike, -⟩ := hcoherent.shown
    have hsum : Alike (o.start + (date - e.start)) (o.start + c.elapsed) :=
      alike_add .rfl (alike_of_beq he).symm
    have hagree := ho.eval (o.alike_clamp hsum)
    rw [hraw, hraw'] at hagree
    refine ⟨raw, c.state, hraw, ?_, ?_⟩
    · rw [rawAt_of_brings hc (.there htime he hshown)]
      rfl
    · cases hagree with
      | ok hraws => exact hraws.trans halike
  · have hoc := hcoherent.output
    obtain ⟨raw', hraw', hmove⟩ := c.moves_of_not_outside (hoc ▸ hanswers)
      (t := o.start + (date - e.start)) (by rw [hoc]) (hoc ▸ hout)
    have hmove' : Model.moveTo (date - e.start) e.model =
        ((.ok (), .cursor { c with
          elapsed := date - e.start, state := raw', repositions := c.repositions + 1 }) :
          Except (Failure α) Unit × Source α) := by
      rw [hm]
      simp only [Model.moveTo, Source.moveTo, hmove]
    rw [hoc] at hraw'
    refine ⟨raw', raw', hraw', ?_, .rfl⟩
    rw [rawAt_of_brings hc (.moved htime he hmove' rfl)]
    rfl

theorem Over.spans [Ordered α] (h : e.Over o) (hc : e.covers date = true) : o.Spans date := by
  obtain ⟨hlow, hhigh⟩ := covers_iff.1 hc
  exact ⟨Scalar.le_trans (le_of_beq (beq_symm h.low)) hlow,
    Scalar.le_trans hhigh (le_of_beq h.high)⟩

/-- The start of an engine may be the other zero. -/
theorem Over.alike_time [Congruent α] (h : e.Over o) (date : α) :
    Alike (o.start + (date - e.start)) (o.start + (date - o.start)) :=
  alike_add .rfl (alike_sub .rfl (alike_of_beq h.start))

theorem Over.inRange [Congruent α] (h : e.Over o) (hr : o.InRange e.start date) :
    o.InRange o.start date where
  elapsed := by
    rw [← isFinite_congr (alike_sub .rfl (alike_of_beq h.start))]
    exact hr.elapsed
  time := by
    rw [← isFinite_congr (h.alike_time date)]
    exact hr.time
  below := hr.below
  above := hr.above

end Engine

/-- Every date of the span is answered, over stored steps, over recorded segments, and over whatever
else has a vector at every time: the time that comes of the date is within the tolerance, and what
is evaluated is a time of the span no further from the date than a quarter of the tolerance. -/
theorem covered_dates_accepted [Measured α] {c₀ : Cursor α}
    (hc₀ : (Source.cursor c₀).Unmoved ∨ c₀.Fresh c₀.output)
    {start low high : α} (hstart : start == c₀.output.start) (hlow : low == c₀.output.low)
    (hhigh : high == c₀.output.high) {decoder : Decoder α} {channels : List (String × Int)}
    {e₀ : Engine (Source α) α}
    (he₀ : Engine.create start low high decoder (.cursor c₀) channels = .ok e₀)
    (rs : List (Request α)) {i : Nat} {e : Engine (Source α) α}
    (he : ((Session.ofEngine e₀).run rs).engine? i = some e) {date : α}
    (hdate : e.covers date = true) (hr : c₀.output.InRange e.start date) {t : α}
    (ht : c₀.output.start + (date - e.start) = t) :
    c₀.output.Tolerates t ∧ c₀.output.isOutside t = false ∧
      c₀.output.Spans (c₀.output.clamp t) ∧
      |value (c₀.output.clamp t) - value date| ≤
        1 / 2 ^ 51 * max 1 (max |value c₀.output.low| |value c₀.output.high|) ∧
      ∃ raw raw', c₀.output.eval (c₀.output.clamp t) = .ok raw ∧ (e.rawAt date).1 = .ok raw' ∧
        AlikeAll raw raw' := by
  obtain ⟨ho, hanswers, hopen⟩ := hc₀.elim Source.Unmoved.fresh id
  have hover : e.Over c₀.output := by
    refine ((Session.each_ofEngine ?_).run (.ofInvariant (Engine.invariant_over _)) rs).engine he
    obtain ⟨-, -, l, -, rfl⟩ := Engine.create_eq_ok_iff.1 he₀
    exact ⟨hstart, hlow, hhigh, c₀, rfl, Cursor.coherent_of_open ho.rooted hopen⟩
  have hspans := hover.spans hdate
  have hr₀ := hover.inRange hr
  have halike : Alike t (c₀.output.start + (date - c₀.output.start)) := by
    rw [← ht]
    exact hover.alike_time date
  have hfinite : isFinite t := by
    rw [isFinite_congr halike]
    exact hr₀.time
  have hnumber := number_of_isFinite hfinite
  have hout : c₀.output.isOutside t = false := by
    rw [Output.isOutside_congr halike]
    exact (Output.isOutside_eq_false_iff ho (number_of_isFinite hr₀.time)).2
      (Output.tolerates_time ho hspans hr₀)
  refine ⟨(Output.isOutside_eq_false_iff ho hnumber).1 hout, hout, Output.spans_clamp ho hnumber,
    ?_, ?_⟩
  · calc |value (c₀.output.clamp t) - value date|
      _ ≤ |value t - value date| := Output.value_clamp_error ho hspans hfinite
      _ ≤ c₀.output.size / 2 ^ 51 := by
        rw [value_alike hfinite halike]
        exact Output.value_time_error ho hspans hr₀
      _ = 1 / 2 ^ 51 * max 1 (max |value c₀.output.low| |value c₀.output.high|) := by
        rw [div_eq_mul_one_div, mul_comm, Output.size]
  · rw [← ht] at hout ⊢
    exact Engine.rawAt_of_reads ho hanswers hover.reads hdate hout

/-- Over a step that goes back from 0.7 to 0.1 the first date of the span comes back from the two
roundings as a time before it, and is answered. -/
theorem covered_dates_accepted_binary64 :
    ∃ o : Output Float, ∃ c₀ : Cursor Float, ∃ e₀ e : Engine (Source Float) Float,
      Dense.Steps.output ⟨1, [⟨0.7, [0.0], [1.0]⟩, ⟨0.1, [1.0], [1.0]⟩], by decide⟩ = .ok o ∧
      Cursor.open? o = .ok c₀ ∧
      Engine.create 0.7 0.1 0.7 (.elements .cartesian) (.cursor c₀) [] = .ok e₀ ∧
      ((Session.ofEngine e₀).run [.clone 0, .drop 0]).engine? 1 = some e ∧
      e.covers 0.1 = true ∧ o.InRange e.start 0.1 ∧ o.start + (0.1 - e.start) < o.low ∧
      o.Tolerates (o.start + (0.1 - e.start)) ∧ ∃ raw, (e.rawAt 0.1).1 = .ok raw := by
  refine ⟨_, _, _, _, rfl, rfl, rfl, rfl, by decide +kernel,
    ⟨by decide +kernel, by decide +kernel, by decide +kernel, by decide +kernel⟩,
    by decide +kernel, ?_⟩
  obtain ⟨htolerates, -, -, -, raw, raw', -, hraw, -⟩ := covered_dates_accepted (α := Float)
    (.inl (.steps (s := ⟨1, [⟨0.7, [0.0], [1.0]⟩, ⟨0.1, [1.0], [1.0]⟩], by decide⟩) rfl rfl))
    (by decide +kernel) (by decide +kernel) (by decide +kernel)
    (rfl : Engine.create 0.7 0.1 0.7 (.elements .cartesian) _ [] = .ok _) [.clone 0, .drop 0]
    (i := 1) rfl (by decide +kernel : Engine.covers _ 0.1 = true)
    ⟨by decide +kernel, by decide +kernel, by decide +kernel, by decide +kernel⟩ rfl
  exact ⟨htolerates, raw', hraw⟩

end OrbitReplay.Replay
