import OrbitReplay.Dense.Cubic
import OrbitReplay.Dense.Cursor

namespace OrbitReplay.Dense

structure Steps (α : Type) where
  width : Nat
  boundaries : List (Boundary α)
  two_le : 2 ≤ boundaries.length

namespace Steps

variable {α : Type}

theorem ne_nil (s : Steps α) : s.boundaries ≠ [] := fun h ↦ by
  have := s.two_le
  simp [h] at this

def count (s : Steps α) : Nat := s.boundaries.length - 1

def first (s : Steps α) : Boundary α := s.boundaries.head s.ne_nil

def last (s : Steps α) : Boundary α := s.boundaries.getLast s.ne_nil

def join (times : List α) (states slopes : List (List α)) : List (Boundary α) :=
  (times.zip (states.zip slopes)).map fun (t, y, d) ↦ ⟨t, y, d⟩

variable [Scalar α]

def gaps : List α → List α
  | a :: b :: rest => (b - a) :: gaps (b :: rest)
  | _ => []

def isMonotonic (times : List α) : Bool :=
  (gaps times).all (fun d ↦ Scalar.ofNat 0 < d) || (gaps times).all (fun d ↦ d < Scalar.ofNat 0)

/-- Checks the shapes, then the times. Vectors of states or slopes count as matrices of one row. -/
def ofTensors (t states slopes : Tensor α) : Except (Defect α) (Steps α) :=
  let states := states.raise
  let slopes := slopes.raise
  match t.shape with
  | [n] =>
    if n < 2 then .error .tooFewBoundaries
    else
      match states.shape with
      | [m, width] =>
        if m != n then .error (.statesShape states.shape n)
        else if slopes.shape != states.shape then .error (.slopesShape slopes.shape states.shape)
        else if !isMonotonic t.data then .error .boundariesNotMonotonic
        else
          let boundaries := join t.data states.rows slopes.rows
          if h : 2 ≤ boundaries.length then .ok ⟨width, boundaries, h⟩ else .error .tooFewBoundaries
      | _ => .error (.statesShape states.shape n)
  | _ => .error .tooFewBoundaries

def isForward (s : Steps α) : Bool := s.first.time < s.last.time

def ascending (s : Steps α) : List (Boundary α) :=
  if s.isForward then s.boundaries else s.boundaries.reverse

def output (s : Steps α) : Except (Defect α) (Output α) :=
  if !s.boundaries.all (Scalar.isFinite ·.time) then .error .timeNotFinite
  else if !s.boundaries.all (·.state.all Scalar.isFinite) then .error .stateNotFinite
  else if !s.boundaries.all (·.slope.all Scalar.isFinite) then .error .slopeNotFinite
  else
    let pieces := Piece.ofBoundaries s.ascending
    let low := if s.isForward then s.first.time else s.last.time
    let high := if s.isForward then s.last.time else s.first.time
    .ok { start := s.first.time, low, high, eval := fun x ↦ .ok (evalPieces pieces x) }

end Steps

end OrbitReplay.Dense
