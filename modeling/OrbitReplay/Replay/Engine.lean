import OrbitReplay.Dense.Cursor
import OrbitReplay.Replay.Layout

namespace OrbitReplay.Replay

open OrbitReplay.Dense (Model)

/-- A span of dates and a model that is moved to them on demand. Every query returns the engine
after it, since the model may have moved even though the query failed. -/
structure Engine (μ α : Type) where
  start : α
  low : α
  high : α
  decoder : Decoder α
  model : μ
  layout : Layout

inductive Instant (α : Type) where
  | date (d : α)
  | state (s : State α)

def Instant.toDate {α : Type} : Instant α → α
  | date d => d
  | state s => s.date

namespace Engine

variable {μ α : Type} [Scalar α]

/-- The span must not be reversed and the start must be one of its ends; then the channels are
registered. -/
def create (start low high : α) (decoder : Decoder α) (model : μ) (channels : List (String × Int)) :
    Except (Failure α) (Engine μ α) :=
  if high < low then .error (Defect.spanReversed low high).failure
  else if !(start == low) && !(start == high) then .error (Defect.startInside start).failure
  else
    match Layout.registerAll {} channels with
    | .ok layout => .ok ⟨start, low, high, decoder, model, layout⟩
    | .error f => .error f

def ofOutput (o : Dense.Output α) (decoder : Decoder α) (model : μ)
    (channels : List (String × Int)) : Except (Failure α) (Engine μ α) :=
  create o.start o.low o.high decoder model channels

def rawLength (e : Engine μ α) : Nat := e.layout.next

def covers (e : Engine μ α) (date : α) : Bool := e.low ≤ date && date ≤ e.high

def channel (e : Engine μ α) (name : String) : Except (Failure α) Channel := e.layout.channel name

def register (e : Engine μ α) (name : String) (length : Int) :
    Except (Failure α) Channel × Engine μ α :=
  match e.layout.register name length with
  | .ok (c, layout) => (.ok c, { e with layout })
  | .error f => (.error f, e)

/-- Passes the library's own faults on; anything else becomes the cause of a failure to decode. -/
def wrap {β : Type} (date : α) : Except (Failure α) β → Except (Failure α) β
  | .error (.mishap m) => .error (.fault (.undecodable date m))
  | r => r

variable [Model μ α]

def seek (e : Engine μ α) (elapsed : α) : Except (Failure α) Unit × Engine μ α :=
  match Model.time e.model with
  | .error f => (.error f, e)
  | .ok t =>
    if t == elapsed then (.ok (), e)
    else
      let (r, model) := Model.moveTo elapsed e.model
      (r, { e with model })

def rawAt (e : Engine μ α) (date : α) : Except (Failure α) (List α) × Engine μ α :=
  if e.covers date then
    match e.seek (date - e.start) with
    | (.error f, e) => (wrap date (.error f), e)
    | (.ok (), e) => (wrap date (Model.state e.model), e)
  else (.error (.fault (.outOfRange date e.low e.high)), e)

def stateAt (e : Engine μ α) (date : α) : Except (Failure α) (State α) × Engine μ α :=
  match e.rawAt date with
  | (.error f, e) => (.error f, e)
  | (.ok raw, e) => (wrap date (e.decoder date (.vector raw)), e)

def read (e : Engine μ α) (c : Channel) (date : α) : Except (Failure α) (List α) × Engine μ α :=
  match e.rawAt date with
  | (.error f, e) => (.error f, e)
  | (.ok raw, e) =>
    if raw.length < c.stop then
      (.error (.fault (.shortRaw date raw.length c.name c.offset c.stop)), e)
    else (.ok (c.slice raw), e)

def attachAll (date : α) :
    List Channel → State α → Engine μ α → Except (Failure α) (State α) × Engine μ α
  | [], s, e => (.ok s, e)
  | c :: cs, s, e =>
    match e.read c date with
    | (.error f, e) => (.error f, e)
    | (.ok xs, e) => attachAll date cs (s.attach c.name (.vector xs)) e

def propagate (e : Engine μ α) (date : α) : Except (Failure α) (State α) × Engine μ α :=
  match e.stateAt date with
  | (.error f, e) => (.error f, e)
  | (.ok s, e) => attachAll date e.layout.channels s e

def orbitAt (e : Engine μ α) (date : α) : Except (Failure α) (Tensor α) × Engine μ α :=
  let (r, e) := e.stateAt date
  (r.map State.elements, e)

def massAt (e : Engine μ α) (date : α) : Except (Failure α) α × Engine μ α :=
  let (r, e) := e.stateAt date
  (r.map State.mass, e)

/-- The state at the first date of the span, whichever end the integration started from. -/
def initialState (e : Engine μ α) : Except (Failure α) (State α) × Engine μ α := e.stateAt e.low

def readNamed (e : Engine μ α) (name : String) (date : α) :
    Except (Failure α) (List α) × Engine μ α :=
  match e.channel name with
  | .error f => (.error f, e)
  | .ok c => e.read c date

/-- A replay is read-only and refuses every state. -/
def resetInitialState (_ : Engine μ α) (_ : State α) : Except (Failure α) Unit :=
  .error (.fault .notResettable)

/-- A new engine with the same channels registered anew. Its model is a deep copy: copying succeeds,
and what is copied is equal to the original and shares nothing with it, so the value stands for
both. -/
def clone (e : Engine μ α) : Except (Failure α) (Engine μ α) :=
  create e.start e.low e.high e.decoder e.model e.layout.requests

end Engine

end OrbitReplay.Replay
