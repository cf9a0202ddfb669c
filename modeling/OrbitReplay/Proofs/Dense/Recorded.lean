import OrbitReplay.Dense.Source
import OrbitReplay.Proofs.Dense.Tracks
import OrbitReplay.Proofs.Dense.Zeros
import OrbitReplay.Proofs.Scalar.Tolerance

namespace OrbitReplay.Dense

open Scalar

variable {α : Type} [Scalar α]

/-- An output with finite ends, one of which is its start. -/
structure Output.Anchored (o : Output α) : Prop where
  low : isFinite o.low
  high : isFinite o.high
  start : isFinite o.start
  low_start : ¬ o.start < o.low
  start_high : ¬ o.high < o.start
  eval {t t' : α} : Alike t t' → Agree AlikeAll (o.eval t) (o.eval t')

namespace Output

def outcome (o : Output α) (elapsed : α) : Except (Failure α) (List α) :=
  if o.isOutside (o.start + elapsed) then
    .error (Defect.outsideSpan (o.start + elapsed) o.low o.high).failure
  else o.eval (o.clamp (o.start + elapsed))

def refusal (o : Output α) (elapsed : α) : Option (Failure α) :=
  match o.outcome elapsed with
  | .ok _ => none
  | .error f => some f

theorem refusal_of_ok {o : Output α} {elapsed : α} {raw : List α}
    (h : o.outcome elapsed = .ok raw) :
    o.refusal elapsed = none := by
  rw [refusal, h]

theorem outcome_of_refusal {o : Output α} {elapsed : α} (h : o.refusal elapsed = none) :
    ∃ raw, o.outcome elapsed = .ok raw := by
  rw [refusal] at h
  split at h
  · next raw hraw => exact ⟨raw, hraw⟩
  · cases h

theorem outcome_of_refused {o : Output α} {elapsed : α} {f : Failure α}
    (h : o.refusal elapsed = some f) :
    o.outcome elapsed = .error f := by
  rw [refusal] at h
  split at h
  · cases h
  · next g hg =>
    cases h
    exact hg

variable {o : Output α} {t t' : α}

theorem isOutside_congr [Ordered α] (h : Alike t t') : o.isOutside t = o.isOutside t' := by
  rw [isOutside, isOutside]
  simp only [lt_congr_left h, lt_congr_right h]

theorem alike_clamp [Congruent α] (o : Output α) (h : Alike t t') :
    Alike (o.clamp t) (o.clamp t') :=
  alike_smaller (alike_larger h .rfl) .rfl

/-- The start is the lower end of output that goes forward, the upper end of one that goes back. -/
theorem anchored_of_ends [Ordered α] {finish : α} (hstart : isFinite o.start)
    (hfinish : isFinite finish)
    (hends : o.low = o.start ∧ o.high = finish ∧ ¬ finish < o.start ∨
      o.low = finish ∧ o.high = o.start ∧ ¬ o.start < finish)
    (heval : ∀ {t t' : α}, Alike t t' → Agree AlikeAll (o.eval t) (o.eval t')) : o.Anchored := by
  rcases hends with ⟨hlow, hhigh, h⟩ | ⟨hlow, hhigh, h⟩
  · refine ⟨?_, ?_, hstart, ?_, ?_, heval⟩
    · rwa [hlow]
    · rwa [hhigh]
    · rw [hlow]
      exact Ordered.lt_irrefl _
    · rwa [hhigh]
  · refine ⟨?_, ?_, hstart, ?_, ?_, heval⟩
    · rwa [hlow]
    · rwa [hhigh]
    · rwa [hlow]
    · rw [hhigh]
      exact Ordered.lt_irrefl _

theorem alike_outcome [Congruent α] (ho : o.Anchored) {raw : List α} (h : t == t')
    (ht : o.outcome t = .ok raw) :
    ∃ raw', o.outcome t' = .ok raw' ∧ AlikeAll raw raw' := by
  have hsum : Alike (o.start + t) (o.start + t') := alike_add .rfl (alike_of_beq h)
  have heval := ho.eval (o.alike_clamp hsum)
  rw [outcome] at ht
  split at ht
  · cases ht
  · next hout =>
    rw [isOutside_congr hsum] at hout
    rw [ht] at heval
    rw [outcome, if_neg hout]
    generalize o.eval (o.clamp (o.start + t')) = r at heval
    cases heval with
    | ok hraw => exact ⟨_, rfl, hraw⟩

variable [Tolerant α]

theorem not_tolerance_lt_zero (ho : o.Anchored) : ¬ o.tolerance < ofNat 0 := by
  have hlow : ¬ abs o.low < ofNat 0 := not_abs_lt_zero (number_of_isFinite ho.low)
  have hhigh : ¬ abs o.high < ofNat 0 := not_abs_lt_zero (number_of_isFinite ho.high)
  have hscale : ¬ larger (larger (ofNat 1) (abs o.low)) (abs o.high) < ofNat 0 :=
    larger_of (P := fun x ↦ ¬ x < ofNat 0) (larger_of (P := fun x ↦ ¬ x < ofNat 0)
      Tolerant.not_one_lt_zero hlow) hhigh
  exact Tolerant.not_mul_lt_zero Tolerant.not_slack_lt_zero hscale

/-- What lies between the ends is not outside, however the tolerance is rounded. -/
theorem isOutside_eq_false (ho : o.Anchored) (hlow : ¬ t < o.low) (hhigh : ¬ o.high < t) :
    o.isOutside t = false := by
  have htol := not_tolerance_lt_zero ho
  have hbelow : ¬ t < o.low - o.tolerance := by
    intro h
    have hle : o.low - o.tolerance ≤ o.low :=
      Scalar.le_of_not_lt (number_of_isFinite ho.low) (number_right h)
        (Tolerant.not_lt_sub ho.low htol)
    exact hlow (Scalar.lt_of_lt_of_le h hle)
  have habove : ¬ o.high + o.tolerance < t := by
    intro h
    have hle : o.high ≤ o.high + o.tolerance :=
      Scalar.le_of_not_lt (number_left h) (number_of_isFinite ho.high)
        (Tolerant.not_add_lt ho.high htol)
    exact hhigh (Scalar.lt_of_le_of_lt hle h)
  simp [isOutside, hbelow, habove]

omit [Tolerant α] in
theorem clamp_of_between (hlow : ¬ t < o.low) (hhigh : ¬ o.high < t) : o.clamp t = t := by
  rw [clamp, larger, if_neg hlow, smaller, if_neg hhigh]

theorem outcome_zero (ho : o.Anchored) {raw : List α} (h : o.eval o.start = .ok raw) :
    ∃ raw', o.outcome (ofNat 0) = .ok raw' ∧ AlikeAll raw raw' := by
  have hsum : Alike o.start (o.start + ofNat 0) :=
    (alike_of_beq (Tolerant.add_zero (number_of_isFinite ho.start))).symm
  have hlow : ¬ o.start + ofNat 0 < o.low := mt (lt_congr_left hsum).2 ho.low_start
  have hhigh : ¬ o.high < o.start + ofNat 0 := mt (lt_congr_right hsum).2 ho.start_high
  have hout : o.isOutside (o.start + ofNat 0) = false := isOutside_eq_false ho hlow hhigh
  have heval := ho.eval hsum
  rw [h] at heval
  rw [outcome, hout, clamp_of_between hlow hhigh]
  generalize o.eval (o.start + ofNat 0) = r at heval
  cases heval with
  | ok hraw => exact ⟨_, rfl, hraw⟩

end Output

theorem Solution.anchored [Congruent α] {s : Solution α} (hlow : isFinite s.low)
    (hhigh : isFinite s.high) :
    s.output.Anchored := by
  rw [Solution.low, Solution.isForward] at hlow
  rw [Solution.high, Solution.isForward] at hhigh
  by_cases h : s.start ≤ s.finish
  · simp only [h, decide_true, if_true] at hlow hhigh
    refine Output.anchored_of_ends hlow hhigh (.inl ⟨?_, ?_, Scalar.not_lt_of_le h⟩) fun ht ↦
      s.agree_eval ht
    · simp [Solution.output, Solution.low, Solution.isForward, h]
    · simp [Solution.output, Solution.high, Solution.isForward, h]
  · simp only [h, decide_false, Bool.false_eq_true, if_false] at hlow hhigh
    refine Output.anchored_of_ends hhigh hlow (.inr ⟨?_, ?_, mt Scalar.le_of_lt h⟩) fun ht ↦
      s.agree_eval ht
    · simp [Solution.output, Solution.low, Solution.isForward, h]
    · simp [Solution.output, Solution.high, Solution.isForward, h]

namespace Steps

structure Finite (s : Steps α) : Prop where
  time : ∀ b ∈ s.boundaries, isFinite b.time
  state : ∀ b ∈ s.boundaries, ∀ x ∈ b.state, isFinite x
  slope : ∀ b ∈ s.boundaries, ∀ x ∈ b.slope, isFinite x

def piecewise (s : Steps α) : Output α where
  start := s.first.time
  low := if s.isForward then s.first.time else s.last.time
  high := if s.isForward then s.last.time else s.first.time
  eval x := .ok (evalPieces (Piece.ofBoundaries s.ascending) x)

theorem output_eq_ok_iff {s : Steps α} {o : Output α} :
    s.output = .ok o ↔ s.Finite ∧ o = s.piecewise := by
  refine ⟨fun h ↦ ?_, fun ⟨h, ho⟩ ↦ ?_⟩
  · rw [output] at h
    split at h
    · cases h
    split at h
    · cases h
    split at h
    · cases h
    next htimes hstates hslopes =>
    simp only [Bool.not_eq_true', Bool.not_eq_false, List.all_eq_true] at htimes hstates hslopes
    cases h
    exact ⟨⟨htimes, hstates, hslopes⟩, rfl⟩
  · have htimes : s.boundaries.all (isFinite ·.time) = true := List.all_eq_true.2 h.time
    have hstates : s.boundaries.all (·.state.all isFinite) = true :=
      List.all_eq_true.2 fun b hb ↦ List.all_eq_true.2 (h.state b hb)
    have hslopes : s.boundaries.all (·.slope.all isFinite) = true :=
      List.all_eq_true.2 fun b hb ↦ List.all_eq_true.2 (h.slope b hb)
    simp [output, piecewise, htimes, hstates, hslopes, ho]

theorem anchored [Congruent α] {s : Steps α} {o : Output α} (h : s.output = .ok o) :
    o.Anchored := by
  obtain ⟨hfinite, rfl⟩ := output_eq_ok_iff.1 h
  have hfirst : isFinite s.first.time := hfinite.time _ (List.head_mem s.ne_nil)
  have hlast : isFinite s.last.time := hfinite.time _ (List.getLast_mem s.ne_nil)
  refine Output.anchored_of_ends hfirst hlast ?_ fun ht ↦ .ok (alike_evalPieces _ ht)
  by_cases hforward : s.first.time < s.last.time
  · refine .inl ⟨?_, ?_, Scalar.lt_asymm hforward⟩ <;> simp [piecewise, isForward, hforward]
  · refine .inr ⟨?_, ?_, hforward⟩ <;> simp [piecewise, isForward, hforward]

end Steps

namespace Cursor

structure Over (o : Output α) (c : Cursor α) : Prop where
  output : c.output = o
  recorded : ∃ raw, o.outcome c.elapsed = .ok raw ∧ AlikeAll raw c.state

theorem moveTo_eq_outcome (c : Cursor α) (elapsed : α) :
    c.moveTo elapsed =
      match c.output.outcome elapsed with
      | .ok raw => (.ok (), { c with elapsed, state := raw, repositions := c.repositions + 1 })
      | .error f => (.error f, c) := by
  by_cases hout : c.output.isOutside (c.output.start + elapsed) = true
  · simp only [moveTo, Output.outcome, if_pos hout]
  · cases heval : c.output.eval (c.output.clamp (c.output.start + elapsed)) with
    | ok raw => simp only [moveTo, Output.outcome, if_neg hout, heval]
    | error f => simp only [moveTo, Output.outcome, if_neg hout, heval]

theorem moveTo_of_ok {o : Output α} {c : Cursor α} {elapsed : α} {raw : List α} (hc : c.output = o)
    (h : o.outcome elapsed = .ok raw) :
    c.moveTo elapsed =
      (.ok (), { c with elapsed, state := raw, repositions := c.repositions + 1 }) := by
  rw [moveTo_eq_outcome, hc, h]

theorem moveTo_of_refused {o : Output α} {c : Cursor α} {elapsed : α} {f : Failure α}
    (hc : c.output = o) (h : o.outcome elapsed = .error f) :
    c.moveTo elapsed = (.error f, c) := by
  rw [moveTo_eq_outcome, hc, h]

theorem tracks [Congruent α] {o : Output α} (ho : o.Anchored) :
    Tracks o.refusal o.outcome (Over o) where
  stands := by
    intro c h
    obtain ⟨raw, hraw, halike⟩ := h.recorded
    refine ⟨c.elapsed, rfl, Output.refusal_of_ok hraw, ?_⟩
    rw [hraw]
    exact .ok halike
  refused := by
    intro c t e f h _ _ _ hf
    exact moveTo_of_refused h.output (Output.outcome_of_refused hf)
  moved := by
    intro c t e h _ _ _ hfree
    obtain ⟨raw, hraw⟩ := Output.outcome_of_refusal hfree
    exact ⟨_, moveTo_of_ok h.output hraw, ⟨h.output, raw, hraw, .rfl⟩, rfl⟩
  congr := by
    intro t e h hfree
    obtain ⟨raw, hraw⟩ := Output.outcome_of_refusal hfree
    obtain ⟨raw', hraw', halike⟩ := Output.alike_outcome ho h hraw
    refine ⟨Output.refusal_of_ok hraw', ?_⟩
    rw [hraw, hraw']
    exact .ok halike

theorem over_of_open [Tolerant α] {o : Output α} (ho : o.Anchored) {c : Cursor α}
    (h : open? o = .ok c) : Over o c := by
  obtain ⟨raw, hraw, rfl⟩ := open?_eq_ok_iff.1 h
  obtain ⟨raw', hraw', halike⟩ := Output.outcome_zero ho hraw
  exact ⟨rfl, raw', hraw', halike.symm⟩

end Cursor

namespace Linear

/-- The start is granted whatever the limit: a motion stands there without having moved. -/
def refusal (m : Linear α) (elapsed : α) : Option (Failure α) :=
  if elapsed == ofNat 0 then none
  else if m.limit < Scalar.abs elapsed then some m.failure
  else none

def path (m : Linear α) (elapsed : α) : List α :=
  List.zipWith (fun b r ↦ b + r * elapsed) m.base m.rate

structure Along (origin m : Linear α) : Prop where
  base : m.base = origin.base
  rate : m.rate = origin.rate
  limit : m.limit = origin.limit
  failure : m.failure = origin.failure
  number : m.elapsed == m.elapsed
  granted : origin.refusal m.elapsed = none

variable [Tolerant α]

theorem not_limit_lt_abs {m : Linear α} {t e : α} (ht : t == t) (hne : ¬ t == e)
    (hgranted : m.refusal t = none)
    (hfree : m.refusal e = none) : ¬ m.limit < Scalar.abs e := by
  by_cases he : e == ofNat 0
  · have ht0 : ¬ t == ofNat 0 := fun h ↦ hne (beq_trans h (beq_symm he))
    have hlimit : ¬ m.limit < Scalar.abs t := by
      intro h
      simp [refusal, ht0, h] at hgranted
    have habs : Scalar.abs e == ofNat 0 :=
      beq_trans (Subtractive.abs_of_nonneg (le_of_beq (beq_symm he))) he
    intro h
    exact hlimit (Scalar.lt_of_lt_of_le (lt_of_lt_of_beq h habs) (Tolerant.zero_le_abs ht))
  · intro h
    simp [refusal, he, h] at hfree

theorem tracks (origin : Linear α) :
    Tracks origin.refusal (fun t ↦ .ok (origin.path t)) (Along origin) where
  stands := by
    intro m h
    have hstate : m.state = origin.path m.elapsed := by rw [state, path, h.base, h.rate]
    have hshown : (Model.state m : Except (Failure α) (List α)) = .ok m.state := rfl
    refine ⟨m.elapsed, rfl, h.granted, ?_⟩
    rw [hshown, hstate]
    exact .ok .rfl
  refused := by
    intro m t e f h _ _ _ hf
    rw [refusal] at hf
    split at hf
    · cases hf
    split at hf
    · next hlimit =>
      cases hf
      exact moveTo_eq_error_iff.2 ⟨h.limit ▸ hlimit, h.failure.symm, rfl⟩
    · cases hf
  moved := by
    intro m t e h htime hne hn hfree
    cases htime
    have hlimit : ¬ m.limit < Scalar.abs e := by
      rw [h.limit]
      exact not_limit_lt_abs h.number hne h.granted hfree
    refine ⟨_, moveTo_eq_ok_iff.2 ⟨hlimit, rfl⟩, ?_, rfl⟩
    exact ⟨h.base, h.rate, h.limit, h.failure, hn, hfree⟩
  congr := by
    intro t e h hfree
    have halike : Alike t e := alike_of_beq h
    refine ⟨?_, .ok (AlikeAll.zipWith (fun hb hr ↦ alike_add hb (alike_mul hr halike)) .rfl .rfl)⟩
    rw [← hfree, refusal, refusal, beq_congr halike.symm .rfl]
    simp only [lt_congr_right (alike_abs halike)]

end Linear

namespace Source

/-- A model as a replay is given it: a new cursor over output with finite ends, or a motion at its
start. -/
inductive Unmoved : Source α → Prop where
  | steps {s : Steps α} {o : Output α} {c : Cursor α} : s.output = .ok o → Cursor.open? o = .ok c →
      Unmoved (cursor c)
  | solution {s : Solution α} {c : Cursor α} : isFinite s.low → isFinite s.high →
      Cursor.open? s.output = .ok c → Unmoved (cursor c)
  | linear (base rate : List α) (limit : α) (failure : Failure α) :
      Unmoved (linear { base, rate, limit, failure, elapsed := ofNat 0 })

variable [Tolerant α]

theorem tracks_of_open {o : Output α} (ho : o.Anchored) {c : Cursor α}
    (h : Cursor.open? o = .ok c) :
    ∃ refusal path, ∃ Reached : Source α → Prop, Tracks refusal path Reached ∧ Reached (cursor c) :=
  ⟨o.refusal, o.outcome, _,
    (Cursor.tracks ho).wrapped  (fun _ ↦ rfl) (fun _ ↦ rfl) fun _ _ ↦ rfl,
    c, rfl, Cursor.over_of_open ho h⟩

theorem tracks_of_unmoved {s : Source α} (h : s.Unmoved) :
    ∃ refusal path, ∃ Reached : Source α → Prop, Tracks refusal path Reached ∧ Reached s := by
  cases h with
  | steps ho hc => exact tracks_of_open (Steps.anchored ho) hc
  | solution hlow hhigh hc => exact tracks_of_open (Solution.anchored hlow hhigh) hc
  | linear base rate limit failure =>
    have hzero : (ofNat 0 : α) == ofNat 0 := Tolerant.zero_beq_zero
    refine ⟨_, _, _, (Linear.tracks _).wrapped  (fun _ ↦ rfl) (fun _ ↦ rfl) fun _ _ ↦ rfl,
      _, rfl, ⟨rfl, rfl, rfl, rfl, hzero, ?_⟩⟩
    rw [Linear.refusal, if_pos hzero]

end Source

end OrbitReplay.Dense
