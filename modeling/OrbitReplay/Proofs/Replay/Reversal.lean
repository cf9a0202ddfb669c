import Mathlib.Tactic.Linarith
import Mathlib.Tactic.Ring
import OrbitReplay.Proofs.Dense.Reversal
import OrbitReplay.Proofs.Replay.Channels
import OrbitReplay.Proofs.Replay.Parallel
import OrbitReplay.Proofs.Replay.Rounding
import OrbitReplay.Proofs.Scalar.Rational

namespace OrbitReplay

open Scalar

theorem Tensor.Alike.eq {s t : Tensor ℚ} (h : Tensor.Alike s t) : s = t := by
  obtain ⟨shape, data, hs⟩ := s
  obtain ⟨shape', data', ht⟩ := t
  obtain ⟨rfl, hdata⟩ := h
  obtain rfl : data = data' := alikeAll_rat.1 hdata
  rfl

theorem State.Alike.eq {s t : State ℚ} (h : State.Alike s t) : s = t := by
  obtain ⟨date, elements, mass, orbitType, entries, hs⟩ := s
  obtain ⟨date', elements', mass', orbitType', entries', ht⟩ := t
  obtain ⟨hdate, helements, hmass, rfl, hentries⟩ := h
  obtain rfl : date = date' := alike_rat.1 hdate
  obtain rfl : elements = elements' := helements.eq
  obtain rfl : mass = mass' := alike_rat.1 hmass
  have heq : entries = entries' := by
    rw [← List.forall₂_eq_eq_eq]
    exact hentries.imp fun _ _ he ↦ Prod.ext he.1 he.2.eq
  subst heq
  rfl

theorem Failure.Alike.eq {f g : Failure ℚ} (h : Failure.Alike f g) : f = g := by
  induction h with
  | refl f => rfl
  | head h => rw [alikeAll_rat.1 h]
  | mass h => rw [alike_rat.1 h]
  | undecodable _ ih => rw [Failure.mishap.inj ih]

theorem Agree.eq {β : Type} {R : β → β → Prop} {r s : Except (Failure ℚ) β} (h : Agree R r s)
    (hR : ∀ {x y}, r = .ok x → s = .ok y → R x y → x = y) : r = s := by
  cases h with
  | ok h => rw [hR rfl rfl h]
  | error h => rw [h.eq]

namespace Replay

open OrbitReplay.Dense (Cursor Model Output Source Steps)

variable {α : Type}

theorem Engine.answer_ne_engine {μ α : Type} [Scalar α] [Model μ α] {e g : Engine μ α}
    {q : Query α} (hq : q ≠ .describe) : (e.answer q).1 ≠ .ok (.engine g) := by
  have hmap {β : Type} (r : Except (Failure α) β) {k : β → Answer μ α}
      (hk : ∀ x, k x ≠ .engine g) : r.map k ≠ .ok (.engine g) := by
    intro h
    cases r with
    | error f => cases h
    | ok x => exact hk x (Except.ok.inj h)
  cases q with
  | describe => exact absurd rfl hq
  | stateAt date => exact hmap _ nofun
  | propagate date => exact hmap _ nofun
  | orbitAt date => exact hmap _ nofun
  | massAt date => exact hmap _ nofun
  | initialState => exact hmap _ nofun
  | additionalState name date => exact hmap _ nofun
  | extract name instant => exact hmap _ nofun
  | register name length => exact hmap _ nofun
  | channel name => exact hmap _ nofun
  | resetInitialState s => exact nofun

namespace Engine

namespace Parallel

variable {μ : Type} [Model μ ℚ] {P : Engine μ ℚ → Engine μ ℚ → Prop} (hP : Parallel P)
  {e f : Engine μ ℚ} (h : P e f)

include hP h

theorem answer_eq {q : Query ℚ} (hq : q ≠ .describe) : (e.answer q).1 = (f.answer q).1 := by
  have hagree := (hP.answer h q fun he ↦ absurd he hq).result
  refine hagree.eq fun hanswer _ halike ↦ ?_
  cases halike with
  | done => rfl
  | state hs => rw [hs.eq]
  | values ht => rw [ht.eq]
  | number hx => rw [alike_rat.1 hx]
  | engine => exact absurd hanswer (answer_ne_engine hq)
  | extractor => rfl
  | index => rfl
  | absent => rfl

theorem read_eq (c : Channel) (date : ℚ) : (e.read c date).1 = (f.read c date).1 :=
  (hP.read h c date).result.eq fun _ _ ↦ alikeAll_rat.1

end Parallel

structure Shifted (o : Output ℚ) (shift : ℚ) (decoder : Decoder ℚ) (e : Engine (Source ℚ) ℚ) :
    Prop where
  start : e.start = o.start + shift
  low : e.low = o.low + shift
  high : e.high = o.high + shift
  decoder : e.decoder = decoder
  reads : e.Reads o

variable {o o' : Output ℚ} {shift : ℚ} {decoder : Decoder ℚ} {e f : Engine (Source ℚ) ℚ} {date : ℚ}

theorem Shifted.withLayout (h : e.Shifted o shift decoder) (l : Layout) :
    Shifted o shift decoder { e with layout := l } :=
  ⟨h.start, h.low, h.high, h.decoder, h.reads⟩

theorem invariant_shifted : Invariant (Shifted o shift decoder) :=
  .ofModel (fun h elapsed ↦ ⟨h.start, h.low, h.high, h.decoder, h.reads.move elapsed⟩)
    fun h ↦ h.withLayout _

/-- What the engine takes off a date the cursor adds again. -/
theorem Shifted.rawAt (ho : o.Anchored) (hanswers : o.Answers) (h : e.Shifted o shift decoder)
    (hc : e.covers date = true) : (e.rawAt date).1 = o.eval (date - shift) := by
  have htime : o.start + (date - e.start) = date - shift := by
    rw [h.start]
    ring
  obtain ⟨hdate, hdate'⟩ := covers_iff.1 hc
  rw [h.low] at hdate
  rw [h.high] at hdate'
  have hlow : ¬ date - shift < o.low := not_lt.2 (le_sub_iff_add_le.2 hdate)
  have hhigh : ¬ o.high < date - shift := not_lt.2 (sub_le_iff_le_add.2 hdate')
  have hout : o.isOutside (o.start + (date - e.start)) = false := by
    rw [htime]
    exact Output.isOutside_eq_false ho hlow hhigh
  obtain ⟨raw, raw', heval, hraw, halike⟩ := rawAt_of_reads ho hanswers h.reads hc hout
  rw [htime, Output.clamp_of_between hlow hhigh] at heval
  rw [hraw, heval, alikeAll_rat.1 halike]

structure Facing (o o' : Output ℚ) (shift : ℚ) (decoder : Decoder ℚ)
    (e f : Engine (Source ℚ) ℚ) : Prop where
  left : e.Shifted o shift decoder
  right : f.Shifted o' shift decoder
  layout : e.layout = f.layout

theorem Facing.low (hoo' : o.Opposite o') (h : Facing o o' shift decoder e f) : e.low = f.low := by
  rw [h.left.low, h.right.low, hoo'.low]

theorem Facing.high (hoo' : o.Opposite o') (h : Facing o o' shift decoder e f) :
    e.high = f.high := by
  rw [h.left.high, h.right.high, hoo'.high]

theorem Facing.rawAt (hoo' : o.Opposite o') (ho : o.Anchored) (ho' : o'.Anchored)
    (hanswers : o.Answers) (h : Facing o o' shift decoder e f) (date : ℚ) :
    (e.rawAt date).1 = (f.rawAt date).1 := by
  have hlow := h.low hoo'
  have hhigh := h.high hoo'
  have hcovers : e.covers date = f.covers date := by rw [covers, covers, hlow, hhigh]
  by_cases hc : e.covers date = true
  · have hanswers' : o'.Answers := fun t ↦ hoo'.eval ▸ hanswers t
    rw [h.left.rawAt ho hanswers hc, h.right.rawAt ho' hanswers' (hcovers ▸ hc), hoo'.eval]
  · rw [rawAt_of_not_covers hc, rawAt_of_not_covers (hcovers ▸ hc), hlow, hhigh]

theorem parallel_facing (hoo' : o.Opposite o') (ho : o.Anchored) (ho' : o'.Anchored)
    (hanswers : o.Answers) : Parallel (Facing o o' shift decoder) where
  low h := h.low hoo'
  high h := h.high hoo'
  layout h := h.layout
  decoder {e f} h date s t hst := by
    rw [h.left.decoder, h.right.decoder, hst.eq]
    exact .refl fun _ ↦ .rfl
  rawAt {e f} h date := by
    have hleft := invariant_shifted.steady.rawAt h.left date
    have hright := invariant_shifted.steady.rawAt h.right date
    have hlayout := (steady_layout e.layout).rawAt rfl date
    have hlayout' := (steady_layout f.layout).rawAt rfl date
    refine ⟨?_, hleft, hright, hlayout.trans (h.layout.trans hlayout'.symm)⟩
    rw [h.rawAt hoo' ho ho' hanswers date]
    exact .refl fun _ ↦ .rfl
  registered h _ := ⟨h.left.withLayout _, h.right.withLayout _, rfl⟩

/-- Whatever is asked before of one engine and of the other, what comes of them answers alike as
long as it has the same channels. Only a description of an engine tells them apart. -/
def SameAnswers {μ α : Type} [Scalar α] [Model μ α] (e₀ f₀ : Engine μ α) : Prop :=
  ∀ (rs rs' : List (Request α)) (i j : Nat) (e f : Engine μ α),
    ((Session.ofEngine e₀).run rs).engine? i = some e →
    ((Session.ofEngine f₀).run rs').engine? j = some f → e.layout = f.layout →
    (∀ q, q ≠ .describe → (e.answer q).1 = (f.answer q).1) ∧
      ∀ c date, (e.read c date).1 = (f.read c date).1

theorem Shifted.sameAnswers (hP : Parallel (Facing o o' shift decoder))
    (he : e.Shifted o shift decoder) (hf : f.Shifted o' shift decoder) : SameAnswers e f := by
  intro rs rs' i j used used' hused hused' hlayout
  have hleft := ((Session.each_ofEngine he).run (.ofInvariant invariant_shifted) rs).engine hused
  have hright := ((Session.each_ofEngine hf).run (.ofInvariant invariant_shifted) rs').engine hused'
  have hfacing : Facing o o' shift decoder used used' := ⟨hleft, hright, hlayout⟩
  exact ⟨fun q hq ↦ hP.answer_eq hfacing hq, fun c date ↦ hP.read_eq hfacing c date⟩

/-- Over any dates as far apart as the ends, a replay of the first output from the first date and
one of the second output from the last give the same answers. -/
def ReplaysAlike (o o' : Output ℚ) : Prop :=
  ∀ (low high : ℚ) (decoder : Decoder ℚ) (channels : List (String × Int)) (c : Cursor ℚ)
    (e : Engine (Source ℚ) ℚ), high - low = o.high - o.low → Cursor.open? o = .ok c →
    create low low high decoder (.cursor c) channels = .ok e →
    ∃ c' f, Cursor.open? o' = .ok c' ∧
      create high low high decoder (.cursor c') channels = .ok f ∧ SameAnswers e f

theorem replaysAlike_of_opposite (hoo' : o.Opposite o') (ho : o.Anchored) (ho' : o'.Anchored)
    (hanswers : o.Answers) (hstart : o.start = o.low) : ReplaysAlike o o' := by
  intro low high decoder channels c e hlength hopen he
  have hstart' : o'.start = o.high := by
    rcases hoo'.starts with ⟨-, h⟩ | ⟨h, h'⟩
    · exact h
    · rw [h', ← hstart, h]
  obtain ⟨c', hopen'⟩ := Cursor.exists_open (o := o') fun t ↦ hoo'.eval ▸ hanswers t
  obtain ⟨hspan, -, l, hl, rfl⟩ := create_eq_ok_iff.1 he
  have hlow : low = o.low + (low - o.low) := by ring
  have hhigh : high = o.high + (low - o.low) := by linarith
  have hleft : Shifted o (low - o.low) decoder ⟨low, low, high, decoder, .cursor c, l⟩ :=
    ⟨by rw [hstart, ← hlow], hlow, hhigh, rfl, c, rfl, Cursor.coherent_of_open ho.rooted hopen⟩
  have hright : Shifted o' (low - o.low) decoder ⟨high, low, high, decoder, .cursor c', l⟩ := by
    refine ⟨?_, ?_, ?_, rfl, c', rfl, Cursor.coherent_of_open ho'.rooted hopen'⟩
    · rw [hstart', ← hhigh]
    · rw [hoo'.low, ← hlow]
    · rw [hoo'.high, ← hhigh]
  refine ⟨c', _, hopen', create_eq_ok_iff.2 ⟨hspan, .inr (beq_rat.2 rfl), l, hl, rfl⟩, ?_⟩
  exact hleft.sameAnswers (parallel_facing hoo' ho ho' hanswers) hright

end Engine

/-- Arrays of steps and their reversals are accepted or refused alike. Of the two exactly one is
forward, and both hold the same values, each entered from its own end of the span. Where nothing is
rounded, a replay from the last date over the reversed arrays answers as one from the first does. -/
theorem reversed_steps_replay_alike [Scalar α] [Opposed α] :
    (∀ {n m d p q : ℕ} (t states slopes : Tensor α), t.shape = [n] → states.shape = [m, d] →
      slopes.shape = [p, q] →
      Steps.ofTensors t.flip states.flip slopes.flip =
          (Steps.ofTensors t states slopes).map Steps.flip ∧
        ∀ s, Steps.ofTensors t states slopes = .ok s → (∀ x ∈ t.data, isFinite x) →
          (∀ x ∈ states.data, isFinite x) → (∀ x ∈ slopes.data, isFinite x) →
          s.flip.isForward = (!s.isForward) ∧
            ∃ o o', s.output = .ok o ∧ s.flip.output = .ok o' ∧ o.Opposite o') ∧
    ∀ {m d p q : ℕ} (t states slopes : Tensor ℚ) (s : Steps ℚ), states.shape = [m, d] →
      slopes.shape = [p, q] → Steps.ofTensors t states slopes = .ok s → s.isForward = true →
      ∃ o o', s.output = .ok o ∧ s.flip.output = .ok o' ∧ Engine.ReplaysAlike o o' := by
  refine ⟨fun t states slopes ht hstates hslopes ↦ ⟨?_, ?_⟩, ?_⟩
  · exact Steps.ofTensors_flip ht hstates hslopes
  · intro s hs htimes hstates' hslopes'
    have hfinite := Steps.finite_of_ofTensors hstates hslopes hs htimes hstates' hslopes'
    exact Steps.opposite_of_ofTensors hstates hslopes hs hfinite
  · intro m d p q t states slopes s hstates hslopes hs hforward
    have hfinite : s.Finite := Steps.finite_of_ofTensors hstates hslopes hs (fun _ _ ↦ rfl)
      (fun _ _ ↦ rfl) fun _ _ ↦ rfl
    obtain ⟨-, o, o', ho, ho', hoo'⟩ := Steps.opposite_of_ofTensors hstates hslopes hs hfinite
    refine ⟨o, o', ho, ho', ?_⟩
    exact Engine.replaysAlike_of_opposite hoo' (Steps.anchored ho) (Steps.anchored ho')
      (Steps.answers ho) (Steps.start_of_isForward hforward ho)

/-- Three boundaries in binary64, and two in exact numbers. The replay from the first date has gone
through a session, and one from the last date, which is new, answers as it does. -/
theorem reversed_steps_replay_alike_two_ways :
    (∃ s : Steps Float, ∃ o',
      Steps.ofTensors ⟨[3], [0.0, 1.0, 3.0], rfl⟩ ⟨[3, 1], [0.0, 1.0, 27.0], rfl⟩
        ⟨[3, 1], [0.0, 3.0, 27.0], rfl⟩ = .ok s ∧
      s.flip.isForward = false ∧ s.flip.output = .ok o' ∧ o'.high = 3.0) ∧
    ∃ e used f : Engine (Source ℚ) ℚ, ∃ c c' : Cursor ℚ,
      Engine.create 10 10 12 (.elements .cartesian) (.cursor c) [] = .ok e ∧
      ((Session.ofEngine e).run [.query 0 (.propagate 11), .clone 0]).engine? 1 = some used ∧
      Engine.create 12 10 12 (.elements .cartesian) (.cursor c') [] = .ok f ∧
      (used.answer (.propagate 12)).1 = (f.answer (.propagate 12)).1 := by
  constructor
  · obtain ⟨-, h⟩ := (reversed_steps_replay_alike (α := Float)).1 ⟨[3], [0.0, 1.0, 3.0], rfl⟩
      ⟨[3, 1], [0.0, 1.0, 27.0], rfl⟩ ⟨[3, 1], [0.0, 3.0, 27.0], rfl⟩ rfl rfl rfl
    obtain ⟨hforward, o, o', ho, ho', hoo'⟩ := h _ rfl (by decide +kernel) (by decide +kernel)
      (by decide +kernel)
    refine ⟨_, o', rfl, hforward, ho', ?_⟩
    rw [hoo'.high]
    cases ho
    rfl
  · have hs : Steps.ofTensors ⟨[2], [0, 2], rfl⟩
        ⟨[2, 7], [7, 0, 0, 0, 1, 0, 500, 7, 2, 0, 0, 1, 0, 498], rfl⟩
        ⟨[2, 7], [0, 1, 0, 0, 0, 0, -1, 0, 1, 0, 0, 0, 0, -1], rfl⟩ =
          .ok (⟨7, [⟨0, [7, 0, 0, 0, 1, 0, 500], [0, 1, 0, 0, 0, 0, -1]⟩,
            ⟨2, [7, 2, 0, 0, 1, 0, 498], [0, 1, 0, 0, 0, 0, -1]⟩], by decide⟩ : Steps ℚ) := by
      with_unfolding_all rfl
    obtain ⟨o, o', ho, -, h⟩ := (reversed_steps_replay_alike (α := Float)).2 _ _ _ _ rfl rfl hs
      (by decide +kernel)
    obtain ⟨-, rfl⟩ := Steps.output_eq_ok_iff.1 ho
    have hcreate (c : Cursor ℚ) : Engine.create 10 10 12 (.elements .cartesian) (.cursor c) [] =
        .ok (⟨10, 10, 12, .elements .cartesian, Source.cursor c, {}⟩ : Engine (Source ℚ) ℚ) :=
      Engine.create_eq_ok_iff.2 ⟨by decide, .inl (by decide), {}, rfl, rfl⟩
    obtain ⟨c', f, -, hf, hsame⟩ := h 10 12 (.elements .cartesian) [] _ _ (by decide +kernel) rfl
      (hcreate _)
    obtain ⟨-, -, l, hl, rfl⟩ := Engine.create_eq_ok_iff.1 hf
    obtain rfl := Except.ok.inj hl
    refine ⟨_, ?used, _, _, c', hcreate _, ?moved, hf,
      (hsame [.query 0 (.propagate 11), .clone 0] [] 1 0 ?used _ ?moved rfl ?layout).1 _ nofun⟩
    case moved => with_unfolding_all rfl
    case layout => rfl

end Replay

end OrbitReplay
