import OrbitReplay.Dense.Run
import OrbitReplay.Proofs.Binary64.Signs
import OrbitReplay.Proofs.Dense.Recorded

namespace OrbitReplay.Dense

open Scalar

variable {α : Type} [Scalar α]

structure Output.Rooted (o : Output α) : Prop where
  number : o.start == o.start
  low_start : ¬ o.start < o.low
  start_high : ¬ o.high < o.start
  eval {t t' : α} : Alike t t' → Agree AlikeAll (o.eval t) (o.eval t')

theorem Output.Anchored.rooted [Ordered α] {o : Output α} (h : o.Anchored) : o.Rooted :=
  ⟨number_of_isFinite h.start, h.low_start, h.start_high, h.eval⟩

theorem Solution.rooted [Congruent α] {s : Solution α} (h : s.start == s.start) :
    s.output.Rooted := by
  have hirrefl : ¬ s.start < s.start := Ordered.lt_irrefl _
  by_cases hle : s.start ≤ s.finish
  · refine ⟨h, ?_, ?_, s.agree_eval⟩
    · simpa [Solution.output, Solution.low, Solution.isForward, hle] using hirrefl
    · simpa [Solution.output, Solution.high, Solution.isForward, hle] using
        Scalar.not_lt_of_le hle
  · refine ⟨h, ?_, ?_, s.agree_eval⟩
    · simpa [Solution.output, Solution.low, Solution.isForward, hle] using mt Scalar.le_of_lt hle
    · simpa [Solution.output, Solution.high, Solution.isForward, hle] using hirrefl

/-- At elapsed time zero the clamped time is the start, up to the sign of zero. -/
theorem Output.Rooted.eval_zero [Tolerant α] {o : Output α} (h : o.Rooted) :
    Agree AlikeAll (o.eval (o.clamp (o.start + ofNat 0))) (o.eval o.start) := by
  have hsum : Alike (o.start + ofNat 0) o.start := alike_of_beq (Tolerant.add_zero h.number)
  have hlow : ¬ o.start + ofNat 0 < o.low := mt (lt_congr_left hsum).1 h.low_start
  have hhigh : ¬ o.high < o.start + ofNat 0 := mt (lt_congr_right hsum).1 h.start_high
  rw [clamp_of_between hlow hhigh]
  exact h.eval hsum

namespace Cursor

/-- Only a cursor that never moved may differ, in signs of zeros, from what was recorded. -/
structure Coherent (o : Output α) (c : Cursor α) : Prop where
  output : c.output = o
  shown : ∃ raw, o.eval (o.clamp (o.start + c.elapsed)) = .ok raw ∧ AlikeAll raw c.state ∧
    (0 < c.repositions → raw = c.state)

theorem coherent_of_open [Tolerant α] {o : Output α} (ho : o.Rooted) {c : Cursor α}
    (h : open? o = .ok c) : c.Coherent o := by
  have hzero := ho.eval_zero
  obtain ⟨state, hstate, rfl⟩ := open?_eq_ok_iff.1 h
  rw [hstate] at hzero
  refine ⟨rfl, ?_⟩
  generalize o.eval (o.clamp (o.start + ofNat 0)) = r at hzero
  cases hzero with
  | ok halike => exact ⟨_, rfl, halike, fun hpos ↦ absurd hpos (Nat.lt_irrefl 0)⟩

theorem repositions_of_open {o : Output α} {c : Cursor α} (h : open? o = .ok c) :
    c.repositions = 0 := by
  obtain ⟨state, -, rfl⟩ := open?_eq_ok_iff.1 h
  rfl

theorem Coherent.moveTo {o : Output α} {c : Cursor α} (h : c.Coherent o) (elapsed : α) :
    (c.moveTo elapsed).2.Coherent o := by
  rcases c.moveTo_cases elapsed rfl with ⟨-, he⟩ | ⟨f, -, -, he⟩ | ⟨raw, -, heval, he⟩
  · rwa [he]
  · rwa [he]
  · rw [he]
    rw [h.output] at heval
    exact ⟨h.output, raw, heval, .rfl, fun _ ↦ rfl⟩

end Cursor

theorem step_move {cs : List (Cursor α)} {i : Nat} {c : Cursor α} (h : cs[i]? = some c)
    (elapsed : α) :
    step cs (.move i elapsed) =
      ((c.moveTo elapsed).1.map fun _ ↦ none, cs.set i (c.moveTo elapsed).2) := by
  simp only [step, h]

omit [Scalar α] in
theorem set_of_getElem? {cs : List (Cursor α)} {i : Nat} {c : Cursor α} (h : cs[i]? = some c) :
    cs.set i c = cs := by
  obtain ⟨hi, rfl⟩ := List.getElem?_eq_some_iff.1 h
  exact List.set_getElem_self hi

section Each

variable {P : Cursor α → Prop} (hmove : ∀ {c : Cursor α}, P c → ∀ elapsed, P (c.moveTo elapsed).2)

include hmove

theorem forall_step {cs : List (Cursor α)} (h : ∀ c ∈ cs, P c) (r : Request α) :
    ∀ c ∈ (step cs r).2, P c := by
  cases r with
  | move i elapsed =>
    cases hi : cs[i]? with
    | none => simpa only [step, hi] using h
    | some c =>
      rw [step_move hi]
      intro d hd
      rcases List.mem_or_eq_of_mem_set hd with hd | rfl
      · exact h d hd
      · exact hmove (h c (List.mem_of_getElem? hi)) elapsed
  | copy i =>
    cases hi : cs[i]? with
    | none => simpa only [step, hi] using h
    | some c =>
      intro d hd
      simp only [step, hi, List.mem_append, List.mem_singleton] at hd
      rcases hd with hd | rfl
      · exact h d hd
      · exact h d (List.mem_of_getElem? hi)

theorem forall_run {cs : List (Cursor α)} (h : ∀ c ∈ cs, P c) (rs : List (Request α)) :
    ∀ c ∈ run cs rs, P c := by
  induction rs generalizing cs with
  | nil => exact h
  | cons r rs ih => exact ih (forall_step hmove h r)

end Each

def transcript (cs : List (Cursor α)) : List (Request α) →
    List (Request α × Except (Failure α) Answer)
  | [] => []
  | r :: rs => (r, (step cs r).1) :: transcript (step cs r).2 rs

omit [Scalar α] in
def count (counts : List Nat) : Request α × Except (Failure α) Answer → List Nat
  | (.move i _, .ok _) => counts.modify i (· + 1)
  | (.move _ _, .error _) => counts
  | (.copy i, _) => counts ++ counts[i]?.toList

theorem repositions_step (cs : List (Cursor α)) (r : Request α) :
    (step cs r).2.map Cursor.repositions =
      count (cs.map Cursor.repositions) (r, (step cs r).1) := by
  cases r with
  | move i elapsed =>
    cases hi : cs[i]? with
    | none =>
      have hlen : (cs.map Cursor.repositions).length ≤ i := by
        rw [List.length_map]
        exact List.getElem?_eq_none_iff.1 hi
      simp only [step, hi, count, List.modify_eq_self hlen]
    | some c =>
      rw [step_move hi]
      rcases c.moveTo_cases elapsed rfl with ⟨-, he⟩ | ⟨f, -, -, he⟩ | ⟨raw, -, -, he⟩
      · simp only [he, set_of_getElem? hi, Except.map, count]
      · simp only [he, set_of_getElem? hi, Except.map, count]
      · have hget : (cs.map Cursor.repositions)[i]? = some c.repositions := by
          rw [List.getElem?_map, hi, Option.map_some]
        simp only [he, Except.map, count, List.map_set, List.modify_eq_set_getElem?, hget]
        rfl
  | copy i =>
    cases hi : cs[i]? with
    | none => simp [step, hi, count]
    | some c => simp [step, hi, count]

theorem repositions_run (cs : List (Cursor α)) (rs : List (Request α)) :
    (run cs rs).map Cursor.repositions =
      (transcript cs rs).foldl count (cs.map Cursor.repositions) := by
  induction rs generalizing cs with
  | nil => rfl
  | cons r rs ih =>
    rw [transcript, List.foldl_cons, ← repositions_step]
    exact ih (step cs r).2

/-- What holds of a new cursor over the output and of all copies made of it, after any moves. -/
def Output.Coheres (o : Output α) : Prop :=
  ∀ (c₀ : Cursor α) (rs : List (Request α)), Cursor.open? o = .ok c₀ →
    let cs := run [c₀] rs
    (∀ c ∈ cs, c.Coherent o) ∧
    cs.map Cursor.repositions = (transcript [c₀] rs).foldl count [0] ∧
    ∀ i c elapsed t, cs[i]? = some c → o.start + elapsed = t →
      (∀ raw, o.isOutside t = false → o.eval (o.clamp t) = .ok raw →
        step cs (.move i elapsed) = (.ok none,
          cs.set i { c with elapsed, state := raw, repositions := c.repositions + 1 })) ∧
      ∀ f, (step cs (.move i elapsed)).1 = .error f →
        (step cs (.move i elapsed)).2 = cs ∧
          (o.isOutside t = true ∧ f = (Defect.outsideSpan t o.low o.high).failure ∨
            o.isOutside t = false ∧ o.eval (o.clamp t) = .error f)

theorem Output.Rooted.coheres [Tolerant α] {o : Output α} (ho : o.Rooted) : o.Coheres := by
  intro c₀ rs hopen cs
  have hcoherent : ∀ c ∈ cs, c.Coherent o := by
    refine forall_run (fun hc elapsed ↦ hc.moveTo elapsed) (fun c hc ↦ ?_) rs
    rw [List.mem_singleton.1 hc]
    exact Cursor.coherent_of_open ho hopen
  refine ⟨hcoherent, ?_, fun i c elapsed t hi ht ↦ ?_⟩
  · rw [← Cursor.repositions_of_open hopen]
    exact repositions_run [c₀] rs
  have hoc : c.output = o := (hcoherent c (List.mem_of_getElem? hi)).output
  have hcases := c.moveTo_cases elapsed (hoc ▸ ht)
  simp only [hoc] at hcases
  rw [step_move hi]
  refine ⟨fun raw hout heval ↦ ?_, fun f hf ↦ ?_⟩
  · rcases hcases with ⟨hout', -⟩ | ⟨g, -, heval', -⟩ | ⟨raw', -, heval', he⟩
    · rw [hout] at hout'
      cases hout'
    · rw [heval] at heval'
      cases heval'
    · rw [heval] at heval'
      cases heval'
      rw [he, hoc]
      rfl
  · rcases hcases with ⟨hout, he⟩ | ⟨g, hout, heval, he⟩ | ⟨raw, -, -, he⟩
    · rw [he] at hf ⊢
      cases hf
      exact ⟨set_of_getElem? hi, .inl ⟨hout, rfl⟩⟩
    · rw [he] at hf ⊢
      cases hf
      exact ⟨set_of_getElem? hi, .inr ⟨hout, heval⟩⟩
    · rw [he] at hf
      cases hf

/-- Cursors over stored steps and over recorded segments are coherent, as are those over any other
output that starts within its span. -/
theorem cursors_cohere [Tolerant α] :
    (∀ (s : Steps α) (o : Output α), s.output = .ok o → o.Coheres) ∧
      (∀ s : Solution α, s.start == s.start → s.output.Coheres) ∧
      ∀ o : Output α, o.Rooted → o.Coheres :=
  ⟨fun _ _ h ↦ (Steps.anchored h).rooted.coheres, fun _ h ↦ (Solution.rooted h).coheres,
    fun _ h ↦ h.coheres⟩

/-- A cursor was moved back to its start, asked for a time beyond the span, and copied; the copy was
then moved to what is not a number, which no check refuses. -/
theorem cursors_cohere_binary64 :
    ∃ o : Output Float, ∃ c₀ : Cursor Float,
      o = Solution.output
        ⟨-0.0, [(2.0, .interpolant [1.0] [[3.0]]), (4.0, .constant [5.0])]⟩ ∧
      Cursor.open? o = .ok c₀ ∧
      let rs : List (Request Float) :=
        [.move 0 1.0, .move 0 9.0, .move 0 0.0, .copy 0, .move 1 (0.0 / 0.0), .move 0 3.0]
      (transcript [c₀] rs).foldl count [0] = [3, 3] ∧
      (run [c₀] rs).map Cursor.repositions = [3, 3] ∧ ∀ c ∈ run [c₀] rs, c.Coherent o := by
  obtain ⟨hcoherent, hcount, -⟩ := (cursors_cohere (α := Float)).2.1
    ⟨-0.0, [(2.0, .interpolant [1.0] [[3.0]]), (4.0, .constant [5.0])]⟩ (by decide)
    ⟨_, 0, [1.0], 0⟩
    [.move 0 1.0, .move 0 9.0, .move 0 0.0, .copy 0, .move 1 (0.0 / 0.0), .move 0 3.0] rfl
  refine ⟨_, ⟨_, 0, [1.0], 0⟩, rfl, rfl, ?_, hcount.trans ?_, hcoherent⟩ <;> decide +kernel

end OrbitReplay.Dense
