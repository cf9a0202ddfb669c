import OrbitReplay.State.Decode

namespace OrbitReplay.State

inductive Request (α : Type) where
  | decode (decoder : Decoder α) (date : α) (raw : Tensor α)
  | make (s : State α)
  | attach (state : Nat) (name : String) (values : Tensor α)
  | attached (state : Nat) (name : String)
  | equal (left right : Nat)
  | unequal (left right : Nat)
  | sameKey (left right : Nat)
  | distinct

inductive Answer (α : Type) where
  | state (s : State α)
  | values (v : Tensor α)
  | verdict (b : Bool)
  | count (n : Nat)

variable {α : Type}

def nth (made : List (State α)) (i : Nat) : Except (Failure α) (State α) :=
  match made[i]? with
  | some s => .ok s
  | none => .error (.mishap .readPastEnd)

def add (made : List (State α)) :
    Except (Failure α) (State α) → Except (Failure α) (Answer α) × List (State α)
  | .ok s => (.ok (.state s), made ++ [s])
  | .error f => (.error f, made)

def judge (made : List (State α)) (left right : Nat) (test : State α → State α → Bool) :
    Except (Failure α) (Answer α) :=
  match nth made left, nth made right with
  | .ok s, .ok t => .ok (.verdict (test s t))
  | .error f, _ => .error f
  | _, .error f => .error f

variable [Scalar α]

def step (made : List (State α)) : Request α → Except (Failure α) (Answer α) × List (State α)
  | .decode decoder date raw => add made (decoder date raw)
  | .make s => add made (.ok s)
  | .attach i name values => add made ((nth made i).map (·.attach name values))
  | .attached i name => ((nth made i).bind fun s ↦ (s.attached name).map .values, made)
  | .equal i j => (judge made i j (· == ·), made)
  | .unequal i j => (judge made i j (· != ·), made)
  | .sameKey i j => (judge made i j (·.key == ·.key), made)
  | .distinct => (.ok (.count (State.distinct made).length), made)

def run (made : List (State α)) (rs : List (Request α)) : List (State α) :=
  rs.foldl (fun made r ↦ (step made r).2) made

end OrbitReplay.State
