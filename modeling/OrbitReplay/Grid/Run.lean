import OrbitReplay.Grid.Basic

namespace OrbitReplay.Grid

variable {α : Type} [Scalar α]

inductive Request (α : Type) where
  | insert (date value : α)
  | valueAt (date : α)
  | neighbors (date : α)
  | clear

inductive Answer (α : Type) where
  | done
  | value (v : α)
  | indices (is : List Nat)

def step (g : Grid α) : Request α → Except (Failure α) (Answer α) × Grid α
  | .insert date value =>
    let (r, g) := g.insert date value
    (r.map fun _ ↦ .done, g)
  | .valueAt date =>
    let (r, g) := g.valueAt date
    (r.map .value, g)
  | .neighbors date =>
    let (r, g) := g.neighbors date
    (r.map .indices, g)
  | .clear => (.ok .done, g.clear)

def run (g : Grid α) (rs : List (Request α)) : Grid α := rs.foldl (fun g r ↦ (g.step r).2) g

def trace (g : Grid α) : List (Request α) → List (Except (Failure α) (Answer α) × Grid α)
  | [] => []
  | r :: rs => g.step r :: trace (g.step r).2 rs

end OrbitReplay.Grid
