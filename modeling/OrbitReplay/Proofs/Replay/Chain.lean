import OrbitReplay.Proofs.Replay.Layout
import OrbitReplay.Replay.Session

namespace OrbitReplay.Replay

open OrbitReplay.Dense (Model)

variable {μ α : Type}

namespace Engine

def andThen {β γ : Type} (p : Except (Failure α) β × Engine μ α)
    (g : β → Engine μ α → Except (Failure α) γ × Engine μ α) : Except (Failure α) γ × Engine μ α :=
  match p with
  | (.error f, e) => (.error f, e)
  | (.ok x, e) => g x e

theorem andThen_keeps {β γ : Type} {P : Engine μ α → Prop} {p : Except (Failure α) β × Engine μ α}
    {g : β → Engine μ α → Except (Failure α) γ × Engine μ α} (hp : P p.2)
    (hg : ∀ x e, P e → P (g x e).2) : P (andThen p g).2 := by
  obtain ⟨r, e⟩ := p
  cases r with
  | error f => exact hp
  | ok x => exact hg x e hp

section Chains

variable [Scalar α] [Model μ α] (e : Engine μ α) (date : α)

theorem stateAt_eq :
    e.stateAt date = andThen (e.rawAt date) fun raw e ↦
      (wrap date (e.decoder date (.vector raw)), e) := by
  rw [stateAt]
  rcases e.rawAt date with ⟨_ | _, _⟩ <;> rfl

theorem read_eq (c : Channel) :
    e.read c date = andThen (e.rawAt date) fun raw e ↦
      if raw.length < c.stop then
        (.error (.fault (.shortRaw date raw.length c.name c.offset c.stop)), e)
      else (.ok (c.slice raw), e) := by
  rw [read]
  rcases e.rawAt date with ⟨_ | _, _⟩ <;> rfl

theorem readNamed_of_find? {name : String} {c : Channel} (h : e.layout.find? name = some c) :
    e.readNamed name date = e.read c date := by
  rw [readNamed, channel, Layout.channel, h]

theorem attachAll_cons (c : Channel) (cs : List Channel) (s : State α) :
    attachAll date (c :: cs) s e =
      andThen (e.read c date) fun xs ↦ attachAll date cs (s.attach c.name (.vector xs)) := by
  rw [attachAll]
  rcases e.read c date with ⟨_ | _, _⟩ <;> rfl

theorem propagate_eq :
    e.propagate date = andThen (e.stateAt date) fun s e ↦ attachAll date e.layout.channels s e := by
  rw [propagate]
  rcases e.stateAt date with ⟨_ | _, _⟩ <;> rfl

end Chains

variable [Scalar α]

section Create

variable {e : Engine μ α} {start low high : α} {decoder : Decoder α} {model : μ}
  {channels : List (String × Int)}

theorem create_of_ends (hspan : ¬ high < low) (hstart : start == low ∨ start == high) :
    create start low high decoder model channels =
      (Layout.registerAll {} channels).map fun l ↦ ⟨start, low, high, decoder, model, l⟩ := by
  have hstart' : ¬ (!(start == low) && !(start == high)) = true := by
    rcases hstart with h | h <;> simp [h]
  rw [create, if_neg hspan, if_neg hstart']
  cases Layout.registerAll (α := α) {} channels <;> rfl

theorem create_eq_ok_iff :
    create start low high decoder model channels = .ok e ↔
      ¬ high < low ∧ (start == low ∨ start == high) ∧
        ∃ l, Layout.registerAll {} channels = (.ok l : Except (Failure α) Layout) ∧
          e = ⟨start, low, high, decoder, model, l⟩ := by
  by_cases hspan : high < low
  · simp [create, hspan]
  by_cases hstart : start == low ∨ start == high
  · rw [create_of_ends hspan hstart]
    cases Layout.registerAll (α := α) {} channels with
    | ok l =>
      refine ⟨fun h ↦ ?_, fun ⟨_, _, l', hl, he⟩ ↦ ?_⟩
      · cases h
        exact ⟨hspan, hstart, l, rfl, rfl⟩
      · cases hl
        exact congrArg Except.ok he.symm
    | error g =>
      refine ⟨fun h ↦ ?_, fun ⟨_, _, l', hl, _⟩ ↦ ?_⟩
      · cases h
      · cases hl
  · obtain ⟨h, h'⟩ := not_or.1 hstart
    simp [create, hspan, h, h']

end Create

variable [Model μ α]

/-- A property of an engine that does not depend on where its model stands. -/
structure Steady (P : Engine μ α → Prop) : Prop where
  move {e : Engine μ α} : P e → ∀ elapsed, P { e with model := (Model.moveTo elapsed e.model).2 }

namespace Steady

variable {P : Engine μ α → Prop} {e : Engine μ α}

variable (hP : Steady P)

include hP

theorem seek (he : P e) (elapsed : α) : P (e.seek elapsed).2 := by
  rw [Engine.seek]
  split
  · exact he
  · split
    · exact he
    · exact hP.move he elapsed

theorem rawAt (he : P e) (date : α) : P (e.rawAt date).2 := by
  have hseek := hP.seek he (date - e.start)
  rw [Engine.rawAt]
  generalize e.seek (date - e.start) = p at hseek
  obtain ⟨_ | _, e'⟩ := p
  · split <;> assumption
  · split <;> assumption

theorem stateAt (he : P e) (date : α) : P (e.stateAt date).2 := by
  rw [stateAt_eq]
  exact andThen_keeps (hP.rawAt he date) fun _ _ h ↦ h

theorem read (he : P e) (c : Channel) (date : α) : P (e.read c date).2 := by
  rw [read_eq]
  refine andThen_keeps (hP.rawAt he date) fun raw e h ↦ ?_
  split <;> exact h

theorem attachAll (date : α) (cs : List Channel) (s : State α) (he : P e) :
    P (attachAll date cs s e).2 := by
  induction cs generalizing s e with
  | nil => exact he
  | cons c cs ih =>
    rw [attachAll_cons]
    exact andThen_keeps (hP.read he c date) fun _ _ h ↦ ih _ h

theorem propagate (he : P e) (date : α) : P (e.propagate date).2 := by
  rw [propagate_eq]
  exact andThen_keeps (hP.stateAt he date) fun s e h ↦ hP.attachAll date e.layout.channels s h

theorem readNamed (he : P e) (name : String) (date : α) : P (e.readNamed name date).2 := by
  rw [Engine.readNamed]
  split
  · exact he
  · exact hP.read he _ date

/-- Only a registration does more to an engine than to move its model. -/
theorem answer (he : P e) {q : Query α}
    (hr : ∀ name length, q = .register name length → P (e.register name length).2) :
    P (e.answer q).2 := by
  cases q with
  | stateAt date | orbitAt date | massAt date => exact hP.stateAt he date
  | initialState => exact hP.stateAt he e.low
  | propagate date => exact hP.propagate he date
  | additionalState name date => exact hP.readNamed he name date
  | extract name instant => exact hP.readNamed he name instant.toDate
  | register name length => exact hr name length rfl
  | channel name => exact he
  | describe => exact he
  | resetInitialState s => exact he

end Steady

/-- A property of an engine that only its own operations can touch, and they keep it. -/
structure Invariant (P : Engine μ α → Prop) : Prop where
  move {e : Engine μ α} : P e → ∀ elapsed, P { e with model := (Model.moveTo elapsed e.model).2 }
  register {e : Engine μ α} : P e → ∀ name length, P (e.register name length).2
  clone {e f : Engine μ α} : P e → e.clone = .ok f → P f

theorem Invariant.steady {P : Engine μ α → Prop} (hP : Invariant P) : Steady P := ⟨hP.move⟩

omit [Scalar α] [Model μ α] in
theorem register_snd (e : Engine μ α) (name : String) (length : Int) :
    (e.register name length).2 = { e with layout := (e.register name length).2.layout } := by
  rw [register]
  split <;> rfl

theorem Invariant.ofModel {P : Engine μ α → Prop}
    (hmove : ∀ {e}, P e → ∀ elapsed, P { e with model := (Model.moveTo elapsed e.model).2 })
    (hlayout : ∀ {e l}, P e → P { e with layout := l }) : Invariant P where
  move := hmove
  register he name length := by
    rw [register_snd]
    exact hlayout he
  clone he hf := by
    obtain ⟨-, -, l, -, rfl⟩ := create_eq_ok_iff.1 hf
    exact hlayout he

/-- What a new layout has and registrations keep, the layout of every engine has. -/
theorem Invariant.ofLayout {P : Layout → Prop} (hnew : P {})
    (hP : ∀ {l l' : Layout} {name length c}, P l →
      l.register name length = (.ok (c, l') : Except (Failure α) (Channel × Layout)) → P l') :
    Invariant fun e : Engine μ α ↦ P e.layout where
  move he _ := he
  register {e} he name length := by
    rw [Engine.register]
    split
    · next hr => exact hP he hr
    · exact he
  clone {e f} _ hf := by
    obtain ⟨-, -, l, hl, rfl⟩ := create_eq_ok_iff.1 hf
    exact Layout.registerAll_keeps hP hnew hl

theorem invariant_tiled : Invariant fun e : Engine μ α ↦ e.layout.Tiled :=
  .ofLayout Layout.tiled_empty Layout.Tiled.register

theorem invariant_repeats : Invariant fun e : Engine μ α ↦ e.layout.Repeats α :=
  .ofLayout rfl Layout.Repeats.register

end Engine

namespace Session

section Places

variable {s : Session μ α} {e f : Engine μ α} {i j : Nat}

theorem lt_length_of_engine? (h : s.engine? i = some e) : i < s.engines.length := by
  rw [engine?, Option.join_eq_some_iff] at h
  exact (List.getElem?_eq_some_iff.1 h).1

theorem engine?_setEngine_self (h : s.engine? i = some f) (e : Engine μ α) :
    (s.setEngine i e).engine? i = some e := by
  rw [engine?, setEngine, List.getElem?_set_self (lt_length_of_engine? h)]
  rfl

theorem getElem?_setEngine_ne (h : j ≠ i) (e : Engine μ α) :
    (s.setEngine j e).engines[i]? = s.engines[i]? :=
  List.getElem?_set_ne h

theorem engine?_append_length (s : Session μ α) (e : Engine μ α) :
    ({ s with engines := s.engines ++ [some e] } : Session μ α).engine? s.engines.length =
      some e := by
  rw [engine?, List.getElem?_concat_length]
  rfl

end Places

def Each (P : Engine μ α → Prop) (s : Session μ α) : Prop := ∀ e, some e ∈ s.engines → P e

variable {P : Engine μ α → Prop} {s : Session μ α} {e : Engine μ α}

theorem each_ofEngine (he : P e) : Each P (ofEngine e) := by
  intro f hf
  cases List.mem_singleton.1 hf
  exact he

theorem Each.engine (h : Each P s) {i : Nat} (he : s.engine? i = some e) : P e := by
  rw [engine?, Option.join_eq_some_iff] at he
  exact h e (List.mem_of_getElem? he)

theorem Each.setEngine (h : Each P s) (i : Nat) (he : P e) : Each P (s.setEngine i e) := by
  intro e' he'
  rcases List.mem_or_eq_of_mem_set he' with hmem | heq
  · exact h e' hmem
  · cases heq
    exact he

theorem Each.drop (h : Each P s) (i : Nat) : Each P { s with engines := s.engines.set i none } := by
  intro e he
  rcases List.mem_or_eq_of_mem_set he with hmem | heq
  · exact h e hmem
  · cases heq

theorem Each.append (h : Each P s) (he : P e) :
    Each P { s with engines := s.engines ++ [some e] } := by
  intro e' he'
  rcases List.mem_append.1 he' with hmem | heq
  · exact h e' hmem
  · cases List.mem_singleton.1 heq
    exact he

variable [Scalar α] [Model μ α]

structure Kept (P : Engine μ α → Prop) : Prop where
  answer {e : Engine μ α} : P e → ∀ q, P (e.answer q).2
  read {e : Engine μ α} : P e → ∀ c date, P (e.read c date).2
  clone {e f : Engine μ α} : P e → e.clone = .ok f → P f

theorem Kept.ofInvariant (hP : Engine.Invariant P) : Kept P where
  answer he _ := hP.steady.answer he fun name length _ ↦ hP.register he name length
  read := hP.steady.read
  clone := hP.clone

theorem Each.step (h : Each P s) (hP : Kept P) (r : Request α) : Each P (s.step r).2 := by
  cases r with
  | query i q =>
    rw [Session.step]
    split
    · exact h
    · next e he => exact h.setEngine i (hP.answer (h.engine he) q)
  | clone i =>
    rw [Session.step]
    split
    · exact h
    · next e he =>
      split
      · exact h
      · next f hc => exact h.append (hP.clone (h.engine he) hc)
  | drop i => exact h.drop i
  | hold i name =>
    rw [Session.step]
    split
    · exact h
    · split <;> exact h
  | readHeld k instant =>
    rw [Session.step]
    split
    · exact h
    · next x hx =>
      rw [Session.read]
      split
      · exact h
      · next e he => exact h.setEngine x.engine (hP.read (h.engine he) x.channel instant.toDate)
  | describeHeld k =>
    rw [Session.step]
    split <;> exact h

theorem Each.run (h : Each P s) (hP : Kept P) (rs : List (Request α)) : Each P (s.run rs) := by
  induction rs generalizing s with
  | nil => exact h
  | cons r rs ih => exact ih (h.step hP r)

end Session

end OrbitReplay.Replay
