import OrbitReplay.Defect

namespace OrbitReplay

inductive Mishap (α : Type) where
  | refused (defect : Defect α)
  | readPastEnd
  | foreign (kind text : String)

inductive Fault (α : Type) where
  | outOfRange (date low high : α)
  | duplicateChannel (name : String)
  | unknownChannel (name : String)
  | detachedChannel (name : String)
  | emptyGrid (date : α)
  | undecodable (date : α) (cause : Mishap α)
  | shortRaw (date : α) (entries : Nat) (name : String) (offset stop : Nat)
  | notResettable

/-- The library's own faults say what was asked in vain. A mishap is anything else that went wrong,
such as a refused value or the failure of a model or decoder that the caller supplied. A query
passes faults on and wraps mishaps. -/
inductive Failure (α : Type) where
  | fault (f : Fault α)
  | mishap (m : Mishap α)

open Decimal (text)
open Text (quoted)

variable (array : List Float → String)

def Mishap.message : Mishap Float → String
  | refused d => d.message array
  | readPastEnd => "list index out of range"
  | foreign _ s => s

def Fault.message : Fault Float → String
  | outOfRange date low high =>
    "date " ++ text date ++ " is out of range [" ++ text low ++ ", " ++ text high ++ "]"
  | duplicateChannel name => "auxiliary channel " ++ quoted name ++ " is already registered"
  | unknownChannel name => "unknown auxiliary channel " ++ quoted name
  | detachedChannel name =>
    "auxiliary channel " ++ quoted name ++ " is detached from its playback engine"
  | emptyGrid date => "cannot interpolate at " ++ text date ++ ": the grid is empty"
  | undecodable date cause =>
    "failed to decode state at " ++ text date ++ ": " ++ cause.message array
  | shortRaw date n name offset stop =>
    "failed to decode state at " ++ text date ++ ": raw vector has " ++ toString n ++
      " entries, channel " ++ quoted name ++ " needs [" ++ toString offset ++ ", " ++
      toString stop ++ ")"
  | notResettable => "the initial state of a playback engine cannot be reset"

def Failure.message : Failure Float → String
  | fault f => f.message array
  | mishap m => m.message array

def Defect.failure {α : Type} (d : Defect α) : Failure α := .mishap (.refused d)

end OrbitReplay
