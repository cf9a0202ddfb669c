import OrbitReplay.Dense.Linear

namespace OrbitReplay.Dense

inductive Source (α : Type) where
  | cursor (c : Cursor α)
  | linear (m : Linear α)

namespace Source

variable {α : Type} [Scalar α]

def elapsed : Source α → α
  | cursor c => c.elapsed
  | linear m => m.elapsed

def repositions : Source α → Nat
  | cursor c => c.repositions
  | linear m => m.repositions

def state : Source α → List α
  | cursor c => c.state
  | linear m => m.state

def moveTo (elapsed : α) : Source α → Except (Failure α) Unit × Source α
  | cursor c => let (r, c) := c.moveTo elapsed; (r, cursor c)
  | linear m => let (r, m) := m.moveTo elapsed; (r, linear m)

instance : Model (Source α) α where
  time s := .ok s.elapsed
  state s := .ok s.state
  moveTo := moveTo

end Source

end OrbitReplay.Dense
