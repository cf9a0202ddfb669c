import OrbitReplay.Scalar

namespace OrbitReplay.Dense

variable {α : Type} [Scalar α]

structure Boundary (α : Type) where
  time : α
  state : List α
  slope : List α

structure Cubic (α : Type) where
  c0 : α
  c1 : α
  c2 : α
  c3 : α

def Cubic.hermite (h y0 y1 d0 d1 : α) : Cubic α :=
  let slope := (y1 - y0) / h
  let q := (d0 + d1 - Scalar.ofNat 2 * slope) / h
  ⟨y0, d0, (slope - d0) / h - q, q / h⟩

def Cubic.eval (c : Cubic α) (u : α) : α :=
  Scalar.ofNat 0 + c.c0 + c.c1 * u + c.c2 * (u * u) + c.c3 * (u * u * u)

structure Piece (α : Type) where
  left : α
  components : List (Cubic α)

namespace Piece

def between (a b : Boundary α) : Piece α where
  left := a.time
  components :=
    ((a.state.zip b.state).zip (a.slope.zip b.slope)).map fun ((y0, y1), (d0, d1)) ↦
      Cubic.hermite (b.time - a.time) y0 y1 d0 d1

def eval (p : Piece α) (x : α) : List α := p.components.map (·.eval (x - p.left))

def ofBoundaries : List (Boundary α) → List (Piece α)
  | a :: b :: rest => between a b :: ofBoundaries (b :: rest)
  | _ => []

/-- The last piece that starts at `x` or before, but at least the first one. -/
def holding (x : α) (p : Piece α) : List (Piece α) → Piece α
  | [] => p
  | q :: rest => if q.left ≤ x then holding x q rest else p

end Piece

def evalPieces (pieces : List (Piece α)) (x : α) : List α :=
  match pieces with
  | [] => []
  | p :: rest => (Piece.holding x p rest).eval x

end OrbitReplay.Dense
