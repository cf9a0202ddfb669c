import OrbitReplay.Proofs.Binary64.Signs
import OrbitReplay.Proofs.Dense.Recorded
import OrbitReplay.Proofs.Replay.Twins

namespace OrbitReplay.Replay

open Scalar
open OrbitReplay.Dense (Model Source Tracks)

variable {μ α : Type} [Scalar α] {Reached : μ → Prop} {origin e f : Engine μ α}

namespace Engine

theorem plays_of_create {start low high : α} {decoder : Decoder α} {model : μ}
    {channels : List (String × Int)}
    (h : create start low high decoder model channels = .ok e) (hm : Reached model) :
    Plays Reached e e := by
  obtain ⟨-, -, l, hl, rfl⟩ := create_eq_ok_iff.1 h
  exact ⟨rfl, rfl, rfl, rfl, Layout.repeats_of_registerAll hl, hm⟩

theorem Plays.clone (h : Plays Reached origin e) (hc : e.clone = .ok f) :
    Plays Reached origin f := by
  obtain ⟨-, -, l, hl, rfl⟩ := create_eq_ok_iff.1 hc
  exact ⟨h.start, h.low, h.high, h.decoder, Layout.repeats_of_registerAll hl, h.reached⟩

end Engine

theorem Engine.kept [Model μ α] [Subtractive α] {refusal : α → Option (Failure α)}
    {path : α → Except (Failure α) (List α)} (hf : Engine.Fixed refusal path Reached origin) :
    Session.Kept (Engine.Plays Reached origin) where
  answer he q := (he.twin.answer hf q).engines.left
  read he c date := (he.twin.read hf c date).engines.left
  clone he hc := he.clone hc

/-- Whatever is asked of an engine over the model and of the clones made of it, each of them goes on
answering as a new engine with its channels does. The decoder has to be a function of its arguments,
which is what `Decoder.Respects` says. -/
def ForgetsHistory [Model μ α] (model : μ) : Prop :=
  ∀ (start low high : α) (decoder : Decoder α) (channels : List (String × Int)) (e : Engine μ α),
    isFinite low → isFinite high → decoder.Respects →
    Engine.create start low high decoder model channels = .ok e →
    ∀ (rs : List (Request α)) (i : Nat) (used : Engine μ α),
      ((Session.ofEngine e).run rs).engine? i = some used →
      ∃ new, Engine.create start low high decoder model used.layout.requests = .ok new ∧
        new.layout = used.layout ∧
        (∀ q, Agree Answer.Alike (used.answer q).1 (new.answer q).1) ∧
        ∀ c date, Agree AlikeAll (used.read c date).1 (new.read c date).1

theorem forgetsHistory_of_tracks [Model μ α] [Subtractive α] [Congruent α]
    {refusal : α → Option (Failure α)} {path : α → Except (Failure α) (List α)}
    (ht : Tracks refusal path Reached) {model : μ} (hm : Reached model) :
    ForgetsHistory model := by
  intro start low high decoder channels e hlow hhigh hd hcreate rs i used hused
  have hplays := Engine.plays_of_create hcreate hm
  obtain ⟨hspan, hstart, l, -, rfl⟩ := Engine.create_eq_ok_iff.1 hcreate
  have hfinite : isFinite start := by
    rcases hstart with h | h
    · rw [isFinite_congr (alike_of_beq h)]
      exact hlow
    · rw [isFinite_congr (alike_of_beq h)]
      exact hhigh
  have hf : Engine.Fixed refusal path Reached ⟨start, low, high, decoder, model, l⟩ :=
    ⟨ht, hfinite, hd⟩
  have hplays' := ((Session.each_ofEngine hplays).run (Engine.kept hf) rs).engine hused
  have htwins : Engine.Twins Reached ⟨start, low, high, decoder, model, l⟩ used
      ⟨start, low, high, decoder, model, used.layout⟩ :=
    ⟨hplays', hplays.withLayout hplays'.layout, rfl⟩
  refine ⟨_, Engine.create_eq_ok_iff.2 ⟨hspan, hstart, used.layout, hplays'.layout, rfl⟩, rfl,
    ?_, ?_⟩
  · exact fun q ↦ (htwins.answer hf q).result
  · exact fun c date ↦ (htwins.read hf c date).result

/-- No answer depends on what was asked before, over any model whose state is a function of its
elapsed time and whose failed moves change nothing, as `Tracks` says of it. Recorded output and
linear motions are such models. -/
theorem answers_forget_history [Tolerant α] :
    (∀ (μ : Type) [Model μ α] (refusal : α → Option (Failure α))
      (path : α → Except (Failure α) (List α)) (Reached : μ → Prop),
      Tracks refusal path Reached → ∀ m, Reached m → ForgetsHistory m) ∧
      ∀ s : Source α, s.Unmoved → ForgetsHistory s := by
  refine ⟨fun μ _ refusal path Reached ht m hm ↦ forgetsHistory_of_tracks ht hm, fun s hs ↦ ?_⟩
  obtain ⟨refusal, path, Reached, ht, hm⟩ := Source.tracks_of_unmoved hs
  exact forgetsHistory_of_tracks ht hm

/-- A motion was asked for a state, refused a date, was cloned and read through a channel; then it
gives the state at its start as if it had never left it. -/
theorem answers_forget_history_binary64 :
    ∃ e used new : Engine (Source Float) Float,
      Engine.create 0 0 10 (.elements .cartesian)
        (.linear
          ⟨[7, 0, 0, 0, 1, 0, 500, 2], [0, 1, 0, 0, 0, 0, -1, 3], 8, .mishap .readPastEnd, 0, 0⟩)
        [("a", 1)] = .ok e ∧
      ((Session.ofEngine e).run [.hold 0 "a", .query 0 (.stateAt 4), .clone 0,
        .query 0 (.propagate 9), .readHeld 0 (.date 6)]).engine? 0 = some used ∧
      used.model.elapsed == 6 ∧
      Engine.create 0 0 10 (.elements .cartesian) e.model used.layout.requests = .ok new ∧
      Agree Answer.Alike (used.answer (.propagate 0)).1 (new.answer (.propagate 0)).1 := by
  obtain ⟨new, hnew, -, hanswer, -⟩ := (answers_forget_history (α := Float)).2 _
    (.linear [7, 0, 0, 0, 1, 0, 500, 2] [0, 1, 0, 0, 0, 0, -1, 3] 8 (.mishap .readPastEnd)) 0 0 10
    (.elements .cartesian) [("a", 1)] _ (by decide) (by decide)
    (Decoder.respects_elements .cartesian) rfl
    [.hold 0 "a", .query 0 (.stateAt 4), .clone 0, .query 0 (.propagate 9), .readHeld 0 (.date 6)]
    0 _ rfl
  exact ⟨_, _, new, rfl, rfl, by decide, hnew, hanswer _⟩

end OrbitReplay.Replay
