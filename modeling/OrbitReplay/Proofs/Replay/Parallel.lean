import OrbitReplay.Proofs.Replay.Agree
import OrbitReplay.Proofs.Replay.Chain

namespace OrbitReplay.Replay

open Scalar
open OrbitReplay.Dense (Model)

variable {μ α : Type} [Scalar α]

namespace Engine

/-- What two engines give and become when they are asked the same. -/
structure Lockstep (P : Engine μ α → Engine μ α → Prop) {β : Type} (R : β → β → Prop)
    (p q : Except (Failure α) β × Engine μ α) : Prop where
  result : Agree R p.1 q.1
  engines : P p.2 q.2

namespace Lockstep

variable {P : Engine μ α → Engine μ α → Prop} {β γ : Type} {R : β → β → Prop} {S : γ → γ → Prop}
  {p q : Except (Failure α) β × Engine μ α}

theorem map (h : Lockstep P R p q) {g : β → γ} (hg : ∀ x y, R x y → S (g x) (g y)) :
    Lockstep P S (p.1.map g, p.2) (q.1.map g, q.2) :=
  ⟨h.result.map hg, h.engines⟩

theorem andThen (h : Lockstep P R p q)
    {g k : β → Engine μ α → Except (Failure α) γ × Engine μ α}
    (hg : ∀ x y e f, R x y → P e f → Lockstep P S (g x e) (k y f)) :
    Lockstep P S (andThen p g) (andThen q k) := by
  obtain ⟨r, e⟩ := p
  obtain ⟨s, f⟩ := q
  obtain ⟨hr, ht⟩ := h
  cases hr with
  | error hr => exact ⟨.error hr, ht⟩
  | ok hr => exact hg _ _ _ _ hr ht

end Lockstep

structure Parallel [Model μ α] (P : Engine μ α → Engine μ α → Prop) : Prop where
  low {e f : Engine μ α} : P e f → e.low = f.low
  high {e f : Engine μ α} : P e f → e.high = f.high
  layout {e f : Engine μ α} : P e f → e.layout = f.layout
  decoder {e f : Engine μ α} : P e f → ∀ date s t, Tensor.Alike s t →
    Agree State.Alike (e.decoder date s) (f.decoder date t)
  rawAt {e f : Engine μ α} : P e f → ∀ date, Lockstep P AlikeAll (e.rawAt date) (f.rawAt date)
  registered {e f : Engine μ α} {name : String} {length : Int} {c : Channel} {l : Layout} : P e f →
    e.layout.register name length = (.ok (c, l) : Except (Failure α) (Channel × Layout)) →
    P { e with layout := l } { f with layout := l }

namespace Parallel

variable [Model μ α] {P : Engine μ α → Engine μ α → Prop} (hP : Parallel P) {e f : Engine μ α}
  (h : P e f)

include hP h

theorem stateAt (date : α) : Lockstep P State.Alike (e.stateAt date) (f.stateAt date) := by
  rw [stateAt_eq, stateAt_eq]
  refine (hP.rawAt h date).andThen fun raw raw' e f hraw hp ↦ ⟨?_, hp⟩
  exact (hP.decoder hp date _ _ (AlikeAll.vector hraw)).wrap date

theorem read (c : Channel) (date : α) : Lockstep P AlikeAll (e.read c date) (f.read c date) := by
  rw [read_eq, read_eq]
  refine (hP.rawAt h date).andThen fun raw raw' e f hraw hp ↦ ?_
  rw [hraw.length_eq]
  split
  · exact ⟨.error (.refl _), hp⟩
  · exact ⟨.ok (List.forall₂_take _ (List.forall₂_drop _ hraw)), hp⟩

omit h in
theorem attachAll (date : α) (cs : List Channel) {s t : State α} (hs : State.Alike s t)
    (h : P e f) : Lockstep P State.Alike (attachAll date cs s e) (attachAll date cs t f) := by
  induction cs generalizing s t e f with
  | nil => exact ⟨.ok hs, h⟩
  | cons c cs ih =>
    rw [attachAll_cons, attachAll_cons]
    exact (hP.read h c date).andThen fun xs ys e f hxs hp ↦
      ih (hs.attach c.name (AlikeAll.vector hxs)) hp

theorem propagate (date : α) : Lockstep P State.Alike (e.propagate date) (f.propagate date) := by
  rw [propagate_eq, propagate_eq]
  refine (hP.stateAt h date).andThen fun s t e f hs hp ↦ ?_
  rw [hP.layout hp]
  exact hP.attachAll date f.layout.channels hs hp

theorem orbitAt (date : α) : Lockstep P Tensor.Alike (e.orbitAt date) (f.orbitAt date) :=
  (hP.stateAt h date).map fun _ _ hs ↦ hs.elements

theorem massAt (date : α) : Lockstep P Scalar.Alike (e.massAt date) (f.massAt date) :=
  (hP.stateAt h date).map fun _ _ hs ↦ hs.mass

theorem initialState : Lockstep P State.Alike e.initialState f.initialState := by
  rw [Engine.initialState, Engine.initialState, hP.low h]
  exact hP.stateAt h f.low

theorem readNamed (name : String) (date : α) :
    Lockstep P AlikeAll (e.readNamed name date) (f.readNamed name date) := by
  rw [Engine.readNamed, Engine.readNamed, Engine.channel, Engine.channel, hP.layout h]
  split
  · exact ⟨.error (.refl _), h⟩
  · exact hP.read h _ date

theorem register (name : String) (length : Int) :
    Lockstep P Eq (e.register name length) (f.register name length) := by
  rw [Engine.register, Engine.register, ← hP.layout h]
  split
  · next hl => exact ⟨.ok rfl, hP.registered h hl⟩
  · exact ⟨.error (.refl _), h⟩

/-- Only a description of the engine shows where it starts. -/
theorem answer (q : Query α) (hstart : q = .describe → e.start = f.start) :
    Lockstep P Answer.Alike (e.answer q) (f.answer q) := by
  cases q with
  | stateAt date => exact (hP.stateAt h date).map fun _ _ hs ↦ .state hs
  | propagate date => exact (hP.propagate h date).map fun _ _ hs ↦ .state hs
  | orbitAt date => exact (hP.orbitAt h date).map fun _ _ ht ↦ .values ht
  | massAt date => exact (hP.massAt h date).map fun _ _ hx ↦ .number hx
  | initialState => exact (hP.initialState h).map fun _ _ hs ↦ .state hs
  | additionalState name date =>
    exact (hP.readNamed h name date).map fun _ _ hxs ↦ .values (AlikeAll.vector hxs)
  | extract name instant =>
    exact (hP.readNamed h name instant.toDate).map fun _ _ hxs ↦ .values (AlikeAll.vector hxs)
  | register name length => exact (hP.register h name length).map fun _ _ hc ↦ hc ▸ .extractor _ _
  | channel name =>
    refine ⟨?_, h⟩
    rw [Engine.answer, Engine.answer, Engine.channel, Engine.channel, hP.layout h]
    cases f.layout.channel (α := α) name with
    | ok c => exact .ok (.extractor c true)
    | error g => exact .error (.refl g)
  | describe =>
    exact ⟨.ok (.engine (hstart rfl) (hP.low h) (hP.high h) (hP.layout h)), h⟩
  | resetInitialState s => exact ⟨.error (.refl _), h⟩

end Parallel

end Engine

end OrbitReplay.Replay
