import OrbitReplay.Failure
import OrbitReplay.Named

namespace OrbitReplay

inductive OrbitType where
  | cartesian
  | keplerian
  | circular
  | equinoctial
deriving DecidableEq

namespace OrbitType

def all : List OrbitType := [cartesian, keplerian, circular, equinoctial]

def name : OrbitType → String
  | cartesian => "CARTESIAN"
  | keplerian => "KEPLERIAN"
  | circular => "CIRCULAR"
  | equinoctial => "EQUINOCTIAL"

def number : OrbitType → Nat
  | cartesian => 1
  | keplerian => 2
  | circular => 3
  | equinoctial => 4

def ofName? (s : String) : Option OrbitType := all.find? (·.name == s)

end OrbitType

structure State (α : Type) where
  date : α
  elements : Tensor α
  mass : α
  orbitType : OrbitType := .equinoctial
  additional : Named (Tensor α) := .empty

namespace State

variable {α : Type}

def attached (s : State α) (name : String) : Except (Failure α) (Tensor α) :=
  match s.additional.get? name with
  | some v => .ok v
  | none => .error (.fault (.unknownChannel name))

def attach (s : State α) (name : String) (values : Tensor α) : State α :=
  { s with additional := s.additional.insert name values }

variable [Scalar α]

/-- Equal numbers throughout; a value that is not a number makes a state differ from itself. -/
instance : BEq (State α) where
  beq s t :=
    s.date == t.date && s.mass == t.mass && s.orbitType == t.orbitType &&
      s.elements == t.elements && s.additional.agree t.additional

structure Key (α : Type) where
  date : α
  mass : α
  orbitType : OrbitType

instance : BEq (Key α) where
  beq a b := a.date == b.date && a.mass == b.mass && a.orbitType == b.orbitType

def key (s : State α) : Key α := ⟨s.date, s.mass, s.orbitType⟩

def distinct (states : List (State α)) : List (State α) :=
  states.foldl (fun kept s ↦ if kept.any (· == s) then kept else kept ++ [s]) []

end State

end OrbitReplay
