import OrbitReplay.Replay.Engine

namespace OrbitReplay.Replay

open OrbitReplay.Dense (Model)

/-- A channel and the engine that registered it. While a channel is in a layout that engine is the
one whose layout it is: registration puts it there, nothing takes it to another layout, and a clone
registers its own. So the engine's place is put down when the channel is handed out. -/
structure Extractor where
  channel : Channel
  engine : Nat

/-- A dropped engine leaves an empty place, so that the others keep their numbers. -/
structure Session (μ α : Type) where
  engines : List (Option (Engine μ α))
  held : List Extractor := []

inductive Query (α : Type) where
  | stateAt (date : α)
  | propagate (date : α)
  | orbitAt (date : α)
  | massAt (date : α)
  | initialState
  | additionalState (name : String) (date : α)
  | extract (name : String) (when : Instant α)
  | register (name : String) (length : Int)
  | channel (name : String)
  | describe
  | resetInitialState (s : State α)

inductive Request (α : Type) where
  | query (engine : Nat) (q : Query α)
  | clone (engine : Nat)
  | drop (engine : Nat)
  | hold (engine : Nat) (name : String)
  | readHeld (extractor : Nat) (when : Instant α)
  | describeHeld (extractor : Nat)

inductive Answer (μ α : Type) where
  | done
  | state (s : State α)
  | values (t : Tensor α)
  | number (x : α)
  | engine (e : Engine μ α)
  | extractor (c : Channel) (attached : Bool)
  | index (i : Nat)
  | absent

namespace Engine

variable {μ α : Type} [Scalar α] [Model μ α]

def answer (e : Engine μ α) : Query α → Except (Failure α) (Answer μ α) × Engine μ α
  | .stateAt date =>
    let (r, e) := e.stateAt date
    (r.map .state, e)
  | .propagate date =>
    let (r, e) := e.propagate date
    (r.map .state, e)
  | .orbitAt date =>
    let (r, e) := e.orbitAt date
    (r.map .values, e)
  | .massAt date =>
    let (r, e) := e.massAt date
    (r.map .number, e)
  | .initialState =>
    let (r, e) := e.initialState
    (r.map .state, e)
  | .additionalState name date =>
    let (r, e) := e.readNamed name date
    (r.map (.values ∘ .vector), e)
  | .extract name instant =>
    let (r, e) := e.readNamed name instant.toDate
    (r.map (.values ∘ .vector), e)
  | .register name length =>
    let (r, e) := e.register name length
    (r.map (.extractor · true), e)
  | .channel name => ((e.channel name).map (.extractor · true), e)
  | .describe => (.ok (.engine e), e)
  | .resetInitialState s => ((e.resetInitialState s).map fun _ ↦ .done, e)

end Engine

namespace Session

variable {μ α : Type} [Scalar α] [Model μ α]

def ofEngine (e : Engine μ α) : Session μ α := { engines := [some e] }

def engine? (s : Session μ α) (i : Nat) : Option (Engine μ α) := (s.engines[i]?).join

def setEngine (s : Session μ α) (i : Nat) (e : Engine μ α) : Session μ α :=
  { s with engines := s.engines.set i (some e) }

def isAttached (s : Session μ α) (x : Extractor) : Bool := (s.engine? x.engine).isSome

def read (s : Session μ α) (x : Extractor) (instant : Instant α) :
    Except (Failure α) (Answer μ α) × Session μ α :=
  match s.engine? x.engine with
  | none => (.error (.fault (.detachedChannel x.channel.name)), s)
  | some e =>
    let (r, e) := e.read x.channel instant.toDate
    (r.map (.values ∘ .vector), s.setEngine x.engine e)

def step (s : Session μ α) : Request α → Except (Failure α) (Answer μ α) × Session μ α
  | .query i q =>
    match s.engine? i with
    | none => (.ok .absent, s)
    | some e =>
      let (r, e) := e.answer q
      (r, s.setEngine i e)
  | .clone i =>
    match s.engine? i with
    | none => (.ok .absent, s)
    | some e =>
      match e.clone with
      | .error f => (.error f, s)
      | .ok e => (.ok (.index s.engines.length), { s with engines := s.engines ++ [some e] })
  | .drop i => (.ok .done, { s with engines := s.engines.set i none })
  | .hold i name =>
    match s.engine? i with
    | none => (.ok .absent, s)
    | some e =>
      match e.channel name with
      | .error f => (.error f, s)
      | .ok c => (.ok (.index s.held.length), { s with held := s.held ++ [⟨c, i⟩] })
  | .readHeld h instant =>
    match s.held[h]? with
    | none => (.ok .absent, s)
    | some x => s.read x instant
  | .describeHeld h =>
    match s.held[h]? with
    | none => (.ok .absent, s)
    | some x => (.ok (.extractor x.channel (s.isAttached x)), s)

def run (s : Session μ α) (rs : List (Request α)) : Session μ α :=
  rs.foldl (fun s r ↦ (s.step r).2) s

end Session

end OrbitReplay.Replay
