import OrbitReplay.Proofs.Dense.Tracks
import OrbitReplay.Proofs.Replay.Layout
import OrbitReplay.Proofs.Replay.Parallel

namespace OrbitReplay.Replay

open Scalar
open OrbitReplay.Dense (Model Tracks)

variable {μ α : Type}

namespace Engine

theorem number_of_covers [Scalar α] [Ordered α] {e : Engine μ α} {date : α} (h : e.covers date) :
    date == date := by
  simp only [covers, Bool.and_eq_true, decide_eq_true_eq] at h
  exact number_of_le_left h.2

/-- An engine as another one is but for its channels and for where its model stands. -/
structure Plays (Reached : μ → Prop) (origin e : Engine μ α) : Prop where
  start : e.start = origin.start
  low : e.low = origin.low
  high : e.high = origin.high
  decoder : e.decoder = origin.decoder
  layout : e.layout.Repeats α
  reached : Reached e.model

theorem Plays.withModel {Reached : μ → Prop} {origin e : Engine μ α}
    (h : Plays Reached origin e) {m : μ} (hm : Reached m) :
    Plays Reached origin { e with model := m } :=
  ⟨h.start, h.low, h.high, h.decoder, h.layout, hm⟩

theorem Plays.withLayout {Reached : μ → Prop} {origin e : Engine μ α}
    (h : Plays Reached origin e) {l : Layout} (hl : l.Repeats α) :
    Plays Reached origin { e with layout := l } :=
  ⟨h.start, h.low, h.high, h.decoder, hl, h.reached⟩

structure Twins (Reached : μ → Prop) (origin e f : Engine μ α) : Prop where
  left : Plays Reached origin e
  right : Plays Reached origin f
  layout : e.layout = f.layout

theorem Plays.twin {Reached : μ → Prop} {origin e : Engine μ α} (h : Plays Reached origin e) :
    Twins Reached origin e e := ⟨h, h, rfl⟩

variable [Scalar α]

theorem Plays.covers {Reached : μ → Prop} {origin e : Engine μ α} (h : Plays Reached origin e)
    (date : α) : e.covers date = origin.covers date := by
  rw [Engine.covers, Engine.covers, h.low, h.high]

def scripted (refusal : α → Option (Failure α)) (path : α → Except (Failure α) (List α))
    (origin : Engine μ α) (date : α) : Except (Failure α) (List α) :=
  if origin.covers date then
    match refusal (date - origin.start) with
    | some f => wrap date (.error f)
    | none => wrap date (path (date - origin.start))
  else .error (.fault (.outOfRange date origin.low origin.high))

variable [Model μ α] {refusal : α → Option (Failure α)} {path : α → Except (Failure α) (List α)}
  {Reached : μ → Prop} {origin e f : Engine μ α}

theorem seek_scripted (ht : Tracks refusal path Reached) (h : Plays Reached origin e) {elapsed : α}
    (hn : elapsed == elapsed) :
    (∃ g, refusal elapsed = some g ∧ e.seek elapsed = (.error g, e)) ∨
      ∃ m, Reached m ∧ refusal elapsed = none ∧ e.seek elapsed = (.ok (), { e with model := m }) ∧
        Agree AlikeAll (path elapsed) (Model.state m) := by
  obtain ⟨t, htime, hfree, hshown⟩ := ht.stands h.reached
  by_cases he : t == elapsed
  · obtain ⟨hr, hpath⟩ := ht.congr he hfree
    refine .inr ⟨e.model, h.reached, hr, ?_, hpath.symm.trans hshown⟩
    simp only [seek, htime, if_pos he]
  · cases hr : refusal elapsed with
    | some g =>
      refine .inl ⟨g, rfl, ?_⟩
      simp only [seek, htime, if_neg he, ht.refused h.reached htime he hn hr]
    | none =>
      obtain ⟨m, hmove, hm, hat⟩ := ht.moved h.reached htime he hn hr
      obtain ⟨t', htime', -, hs⟩ := ht.stands hm
      rw [hat] at htime'
      cases htime'
      refine .inr ⟨m, hm, rfl, ?_, hs⟩
      simp only [seek, htime, if_neg he, hmove]

theorem rawAt_scripted [Subtractive α] (ht : Tracks refusal path Reached)
    (hs : isFinite origin.start) (h : Plays Reached origin e) (date : α) :
    Agree AlikeAll (scripted refusal path origin date) (e.rawAt date).1 ∧
      ∃ m, Reached m ∧ (e.rawAt date).2 = { e with model := m } := by
  have hcovers := h.covers date
  cases hc : origin.covers date with
  | false =>
    have hc' : ¬ e.covers date = true := by simp [hcovers, hc]
    rw [scripted, rawAt, hc, if_neg hc', ← h.low, ← h.high]
    exact ⟨.error (.refl _), e.model, h.reached, rfl⟩
  | true =>
    have hc' : e.covers date = true := hcovers.trans hc
    have hn : date - e.start == date - e.start := number_sub (h.start ▸ hs) (number_of_covers hc)
    rw [scripted, rawAt, hc, if_pos hc', ← h.start]
    rcases seek_scripted ht h hn with ⟨g, hr, hseek⟩ | ⟨m, hm, hr, hseek, hshown⟩
    · simp only [hr, hseek, if_true]
      exact ⟨Agree.wrap date (.error (.refl g)), e.model, h.reached, rfl⟩
    · simp only [hr, hseek, if_true]
      exact ⟨hshown.wrap date, m, hm, rfl⟩

/-- What a replay is built over: a model that is fixed in advance, a decoder that looks at numbers
only, and a span that starts at a finite date. -/
structure Fixed (refusal : α → Option (Failure α)) (path : α → Except (Failure α) (List α))
    (Reached : μ → Prop) (origin : Engine μ α) : Prop where
  tracks : Tracks refusal path Reached
  start : isFinite origin.start
  decoder : origin.decoder.Respects

namespace Twins

variable [Subtractive α] (hf : Fixed refusal path Reached origin)

include hf

theorem rawAt (h : Twins Reached origin e f) (date : α) :
    Lockstep (Twins Reached origin) AlikeAll (e.rawAt date) (f.rawAt date) := by
  obtain ⟨he, m, hm, hem⟩ := rawAt_scripted hf.tracks hf.start h.left date
  obtain ⟨hf, n, hn, hfn⟩ := rawAt_scripted hf.tracks hf.start h.right date
  refine ⟨he.symm.trans hf, ?_⟩
  rw [hem, hfn]
  exact ⟨h.left.withModel hm, h.right.withModel hn, h.layout⟩

theorem parallel : Parallel (Twins Reached origin) where
  low h := h.left.low.trans h.right.low.symm
  high h := h.left.high.trans h.right.high.symm
  layout h := h.layout
  decoder h date s t hst := by
    rw [h.left.decoder, h.right.decoder]
    exact hf.decoder date s t hst
  rawAt h date := h.rawAt hf date
  registered h hl := by
    have hrepeats := h.left.layout.register hl
    exact ⟨h.left.withLayout hrepeats, h.right.withLayout hrepeats, rfl⟩

theorem answer (h : Twins Reached origin e f) (q : Query α) :
    Lockstep (Twins Reached origin) Answer.Alike (e.answer q) (f.answer q) :=
  (parallel hf).answer h q fun _ ↦ h.left.start.trans h.right.start.symm

theorem read (h : Twins Reached origin e f) (c : Channel) (date : α) :
    Lockstep (Twins Reached origin) AlikeAll (e.read c date) (f.read c date) :=
  (parallel hf).read h c date

end Twins

end Engine

end OrbitReplay.Replay
