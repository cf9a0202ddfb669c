import OrbitReplay.Failure
import OrbitReplay.Nearest.Locator

namespace OrbitReplay.Nearest.Locator

inductive Request (α : Type) where
  | locate (dates : List α) (date : α)
  | reset

abbrev Answer := Option Int

variable {α : Type} [Scalar α]

def step (l : Locator) : Request α → Except (Failure α) Answer × Locator
  | .locate dates date =>
    match l.locate? dates date with
    | (some i, l) => (.ok (some i), l)
    | (none, l) => (.error (.mishap .readPastEnd), l)
  | .reset => (.ok none, l.reset)

def run (l : Locator) (rs : List (Request α)) : Locator := rs.foldl (fun l r ↦ (l.step r).2) l

end OrbitReplay.Nearest.Locator
