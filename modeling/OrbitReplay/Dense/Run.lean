import OrbitReplay.Dense.Cursor

namespace OrbitReplay.Dense

inductive Request (α : Type) where
  | move (cursor : Nat) (elapsed : α)
  | copy (cursor : Nat)

abbrev Answer := Option Nat

variable {α : Type} [Scalar α]

/-- A copy starts where its cursor stands, and is independent of it from then on. Requests to
cursors that do not exist change nothing. -/
def step (cs : List (Cursor α)) : Request α → Except (Failure α) Answer × List (Cursor α)
  | .move i elapsed =>
    match cs[i]? with
    | none => (.ok none, cs)
    | some c =>
      let (r, c) := c.moveTo elapsed
      (r.map fun _ ↦ none, cs.set i c)
  | .copy i =>
    match cs[i]? with
    | none => (.ok none, cs)
    | some c => (.ok (some cs.length), cs ++ [c])

def run (cs : List (Cursor α)) (rs : List (Request α)) : List (Cursor α) :=
  rs.foldl (fun cs r ↦ (step cs r).2) cs

end OrbitReplay.Dense
