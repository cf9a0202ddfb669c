import OrbitReplay.Dense.Source
import OrbitReplay.Proofs.Replay.Calls

namespace OrbitReplay.Replay

open OrbitReplay.Dense (Model Source)

variable {μ α : Type} [Scalar α] {e e₀ : Engine μ α}

namespace Engine

theorem clone_eq_self_iff :
    e.clone = .ok e ↔
      ¬ e.high < e.low ∧ (e.start == e.low ∨ e.start == e.high) ∧ e.layout.Repeats α := by
  rw [clone, create_eq_ok_iff]
  refine and_congr_right fun _ ↦ and_congr_right fun _ ↦ ⟨fun ⟨l, hl, he⟩ ↦ ?_, fun h ↦ ?_⟩
  · have hlayout : e.layout = l := congrArg layout he
    exact hlayout ▸ hl
  · exact ⟨e.layout, h, rfl⟩

theorem clone_of_create {start low high : α} {decoder : Decoder α} {model : μ}
    {channels : List (String × Int)}
    (h : create start low high decoder model channels = .ok e) : e.clone = .ok e := by
  obtain ⟨hspan, hstart, l, hl, rfl⟩ := create_eq_ok_iff.1 h
  exact clone_eq_self_iff.2 ⟨hspan, hstart, Layout.repeats_of_registerAll hl⟩

/-- Whatever an engine goes through, cloning it gives it again. -/
theorem invariant_clone [Model μ α] : Invariant fun e : Engine μ α ↦ e.clone = .ok e where
  move h _ := by
    have hall := clone_eq_self_iff.1 h
    exact clone_eq_self_iff.2 hall
  register h name length := by
    obtain ⟨hspan, hstart, hlayout⟩ := clone_eq_self_iff.1 h
    rw [register_snd]
    exact clone_eq_self_iff.2 ⟨hspan, hstart, invariant_repeats.register hlayout name length⟩
  clone h hc := by
    rw [h] at hc
    cases hc
    exact h

end Engine

namespace Session

variable [Model μ α] {s : Session μ α} {i : Nat}

theorem step_clone (he : s.engine? i = some e) (hc : e.clone = .ok e) :
    ∃ n t, s.step (.clone i) = (.ok (.index n), t) ∧ s.engine? n = none ∧ t.engine? n = some e ∧
      ∀ j, j ≠ n → t.engine? j = s.engine? j := by
  refine ⟨s.engines.length, { s with engines := s.engines ++ [some e] }, ?_, ?_,
    engine?_append_length s e, fun j hj ↦ ?_⟩
  · rw [step, he]
    simp only [hc]
  · rw [engine?, List.getElem?_eq_none (Nat.le_refl _)]
    rfl
  · rw [engine?, engine?, List.getElem?_append]
    split
    · rfl
    · rw [List.getElem?_eq_none (by simp only [List.length_singleton]; omega),
        List.getElem?_eq_none (by omega)]

/-- In every session an engine can be cloned, the clone is the same engine in a place of its own,
and from then on each of the two, however their requests and those of others follow each other,
answers what it would alone. -/
theorem clones_go_apart {start low high : α} {decoder : Decoder α} {model : μ}
    {channels : List (String × Int)}
    (h : Engine.create start low high decoder model channels = .ok e₀) (rs₀ : List (Request α))
    (he : ((ofEngine e₀).run rs₀).engine? i = some e) :
    let s := (ofEngine e₀).run rs₀
    (∃ n t, s.step (.clone i) = (.ok (.index n), t) ∧
      (s.engine? n = none ∧ t.engine? n = some e ∧ ∀ j, j ≠ n → t.engine? j = s.engine? j) ∧
      ∀ rs, .drop n ∉ rs → t.story n rs = (e.trace (t.calls n rs)).map fun p ↦ (p.1, some p.2)) ∧
    ∀ rs, .drop i ∉ rs → s.story i rs = (e.trace (s.calls i rs)).map fun p ↦ (p.1, some p.2) := by
  intro s
  have heach := (each_ofEngine (Engine.clone_of_create h)).run (.ofInvariant Engine.invariant_clone)
    rs₀
  obtain ⟨n, t, hstep, hfree, hclone, hothers⟩ := step_clone he (heach.engine he)
  exact ⟨⟨n, t, hstep, ⟨hfree, hclone, hothers⟩, fun rs hrs ↦ story_eq_trace hclone hrs⟩,
    fun rs hrs ↦ story_eq_trace he hrs⟩

/-- An engine refused a channel, moved and was cloned; it got another channel, the clone moved on,
the engine was dropped, and the clone got a channel of the same name and was cloned in turn. -/
theorem clones_go_apart_binary64 :
    ∃ e₀ e : Engine (Source Float) Float, ∃ t,
      Engine.create 0 0 10 (.elements .cartesian)
        (.linear
          ⟨[7, 0, 0, 0, 1, 0, 500, 2], [0, 1, 0, 0, 0, 0, -1, 3], 8, .mishap .readPastEnd, 0, 0⟩)
        [("a", 1)] = .ok e₀ ∧
      ((ofEngine e₀).run [.query 0 (.register "a" 2), .query 0 (.stateAt 4)]).engine? 0 = some e ∧
      e.model.elapsed == 4 ∧ e.model.repositions = 1 ∧
      ((ofEngine e₀).run [.query 0 (.register "a" 2), .query 0 (.stateAt 4)]).step (.clone 0) =
        (.ok (.index 1), t) ∧
      t.story 1 [.query 0 (.register "b" 1), .query 1 (.propagate 6), .drop 0,
          .query 1 (.register "b" 2), .clone 1, .query 2 (.register "c" 1)] =
        (e.trace [.query (.propagate 6), .query (.register "b" 2), .clone]).map
          fun p ↦ (p.1, some p.2) := by
  obtain ⟨⟨n, t, hstep, -, hstory⟩, -⟩ := clones_go_apart (rfl : Engine.create 0 0 10
    (.elements .cartesian) (Source.linear
      ⟨[7, 0, 0, 0, 1, 0, 500, 2], [0, 1, 0, 0, 0, 0, -1, 3], 8, .mishap .readPastEnd, 0, 0⟩)
    [("a", 1)] = .ok (_ : Engine (Source Float) Float))
    [.query 0 (.register "a" 2), .query 0 (.stateAt 4)] (i := 0) rfl
  have hdrop : .drop 1 ∉ ([.query 0 (.register "b" 1), .query 1 (.propagate 6), .drop 0,
      .query 1 (.register "b" 2), .clone 1, .query 2 (.register "c" 1)] :
        List (Request Float)) := by simp
  cases hstep
  exact ⟨_, _, _, rfl, rfl, by decide, rfl, rfl, hstory _ hdrop⟩

end Session

end OrbitReplay.Replay
