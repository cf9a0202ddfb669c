import OrbitReplay.Proofs.Replay.Calls

namespace OrbitReplay.Dense

variable {μ ν α : Type} [Model μ α] [Model ν α]

/-- A map under which no time, no vector and no outcome of a move changes. -/
structure Carries (f : μ → ν) : Prop where
  time (m : μ) : Model.time (f m) = Model.time m
  state (m : μ) : Model.state (f m) = Model.state m
  moveTo (elapsed : α) (m : μ) :
    Model.moveTo elapsed (f m) = ((Model.moveTo elapsed m).1, f (Model.moveTo elapsed m).2)

end OrbitReplay.Dense

namespace OrbitReplay.Replay

open OrbitReplay.Dense (Carries Model)

variable {μ ν α : Type}

def Engine.onto (f : μ → ν) (e : Engine μ α) : Engine ν α :=
  ⟨e.start, e.low, e.high, e.decoder, f e.model, e.layout⟩

def Answer.onto (f : μ → ν) : Answer μ α → Answer ν α
  | .done => .done
  | .state s => .state s
  | .values t => .values t
  | .number x => .number x
  | .engine e => .engine (e.onto f)
  | .extractor c attached => .extractor c attached
  | .index i => .index i
  | .absent => .absent

namespace Engine

def resultOnto {β : Type} (f : μ → ν) (p : Except (Failure α) β × Engine μ α) :
    Except (Failure α) β × Engine ν α := (p.1, p.2.onto f)

def answerOnto (f : μ → ν) (p : Except (Failure α) (Answer μ α) × Engine μ α) :
    Except (Failure α) (Answer ν α) × Engine ν α := (p.1.map (Answer.onto f), p.2.onto f)

theorem answer_of_result {β : Type} {f : μ → ν} {p : Except (Failure α) β × Engine μ α}
    {q : Except (Failure α) β × Engine ν α} {g : β → Answer μ α} {k : β → Answer ν α}
    (hq : q = resultOnto f p) (h : ∀ x, k x = (g x).onto f) :
    (q.1.map k, q.2) = answerOnto f (p.1.map g, p.2) := by
  subst hq
  obtain ⟨_ | x, e⟩ := p
  · rfl
  · exact congrArg (fun a ↦ (Except.ok a, e.onto f)) (h x)

theorem andThen_onto {β γ : Type} {f : μ → ν} {p : Except (Failure α) β × Engine μ α}
    {g : β → Engine μ α → Except (Failure α) γ × Engine μ α}
    {k : β → Engine ν α → Except (Failure α) γ × Engine ν α}
    (h : ∀ x e, k x (e.onto f) = resultOnto f (g x e)) :
    andThen (resultOnto f p) k = resultOnto f (andThen p g) := by
  obtain ⟨_ | x, e⟩ := p
  · rfl
  · exact h x e

theorem register_onto (f : μ → ν) (e : Engine μ α) (name : String) (length : Int) :
    (e.onto f).register name length = resultOnto f (e.register name length) := by
  have hlayout : (e.onto f).layout = e.layout := rfl
  rw [register, register, hlayout]
  cases e.layout.register (α := α) name length <;> rfl

variable [Scalar α]

theorem create_onto (f : μ → ν) (start low high : α) (decoder : Decoder α) (model : μ)
    (channels : List (String × Int)) :
    create start low high decoder (f model) channels =
      (create start low high decoder model channels).map (·.onto f) := by
  simp only [create]
  by_cases hspan : high < low
  · rw [if_pos hspan, if_pos hspan]
    rfl
  rw [if_neg hspan, if_neg hspan]
  by_cases hstart : (!(start == low) && !(start == high)) = true
  · rw [if_pos hstart, if_pos hstart]
    rfl
  rw [if_neg hstart, if_neg hstart]
  cases Layout.registerAll (α := α) {} channels <;> rfl

theorem clone_onto (f : μ → ν) (e : Engine μ α) : (e.onto f).clone = e.clone.map (·.onto f) :=
  create_onto f e.start e.low e.high e.decoder e.model e.layout.requests

variable [Model μ α] [Model ν α] {f : μ → ν} (hf : Carries f) (e : Engine μ α) (date : α)

include hf

theorem seek_onto (elapsed : α) : (e.onto f).seek elapsed = resultOnto f (e.seek elapsed) := by
  rw [seek, seek, onto, hf.time, hf.moveTo]
  split
  · rfl
  · split <;> rfl

theorem rawAt_onto : (e.onto f).rawAt date = resultOnto f (e.rawAt date) := by
  have hseek := seek_onto hf e (date - e.start)
  have hcovers : (e.onto f).covers date = e.covers date := rfl
  have hstart : (e.onto f).start = e.start := rfl
  rw [rawAt, rawAt, hcovers, hstart, hseek]
  split
  · rcases e.seek (date - e.start) with ⟨_ | _, e'⟩
    · rfl
    · exact congrArg (fun r ↦ (wrap date r, e'.onto f)) (hf.state e'.model)
  · rfl

theorem stateAt_onto : (e.onto f).stateAt date = resultOnto f (e.stateAt date) := by
  rw [stateAt_eq, stateAt_eq, rawAt_onto hf]
  exact andThen_onto fun _ _ ↦ rfl

theorem orbitAt_onto : (e.onto f).orbitAt date = resultOnto f (e.orbitAt date) := by
  rw [orbitAt, stateAt_onto hf]
  rfl

theorem massAt_onto : (e.onto f).massAt date = resultOnto f (e.massAt date) := by
  rw [massAt, stateAt_onto hf]
  rfl

theorem read_onto (c : Channel) : (e.onto f).read c date = resultOnto f (e.read c date) := by
  rw [read_eq, read_eq, rawAt_onto hf]
  refine andThen_onto fun raw e ↦ ?_
  split <;> rfl

theorem attachAll_onto (cs : List Channel) (s : State α) :
    attachAll date cs s (e.onto f) = resultOnto f (attachAll date cs s e) := by
  induction cs generalizing s e with
  | nil => rfl
  | cons c cs ih =>
    rw [attachAll_cons, attachAll_cons, read_onto hf]
    exact andThen_onto fun xs e ↦ ih e _

theorem propagate_onto : (e.onto f).propagate date = resultOnto f (e.propagate date) := by
  rw [propagate_eq, propagate_eq, stateAt_onto hf]
  exact andThen_onto fun s e ↦ attachAll_onto hf e date e.layout.channels s

theorem readNamed_onto (name : String) :
    (e.onto f).readNamed name date = resultOnto f (e.readNamed name date) := by
  have hchannel : (e.onto f).channel name = e.channel name := rfl
  rw [readNamed, readNamed, hchannel]
  split
  · rfl
  · exact read_onto hf e date _

theorem answer_onto (q : Query α) : (e.onto f).answer q = answerOnto f (e.answer q) := by
  cases q with
  | stateAt date => exact answer_of_result (stateAt_onto hf e date) fun _ ↦ rfl
  | propagate date => exact answer_of_result (propagate_onto hf e date) fun _ ↦ rfl
  | orbitAt date => exact answer_of_result (orbitAt_onto hf e date) fun _ ↦ rfl
  | massAt date => exact answer_of_result (massAt_onto hf e date) fun _ ↦ rfl
  | initialState => exact answer_of_result (stateAt_onto hf e e.low) fun _ ↦ rfl
  | additionalState name date =>
    exact answer_of_result (readNamed_onto hf e date name) fun _ ↦ rfl
  | extract name instant =>
    exact answer_of_result (readNamed_onto hf e instant.toDate name) fun _ ↦ rfl
  | register name length => exact answer_of_result (register_onto f e name length) fun _ ↦ rfl
  | channel name => exact answer_of_result (p := (e.channel name, e)) rfl fun _ ↦ rfl
  | describe => rfl
  | resetInitialState s => rfl

theorem reply_onto (c : Call α) : (e.onto f).reply c = answerOnto f (e.reply c) := by
  cases c with
  | query q => exact answer_onto hf e q
  | clone =>
    rw [reply, reply, clone_onto]
    cases e.clone <;> rfl
  | hold name => exact answer_of_result (p := (e.channel name, e)) rfl fun _ ↦ rfl
  | read c instant => exact answer_of_result (read_onto hf e instant.toDate c) fun _ ↦ rfl
  | inspect c => rfl

/-- Whatever is asked, the answers are the same and the engines correspond. -/
theorem trace_onto (cs : List (Call α)) :
    (e.onto f).trace cs = (e.trace cs).map (answerOnto f) := by
  induction cs generalizing e with
  | nil => rfl
  | cons c cs ih =>
    rw [trace, trace, List.map_cons, reply_onto hf]
    exact congrArg _ (ih (e.reply c).2)

end Engine

end OrbitReplay.Replay
