import OrbitReplay.Dense.Cursor

namespace OrbitReplay.Dense

/-- The interpolant of one step: a constant, or a base vector with rows of coefficients. An
integrator that records its steps in another way gives an `Output` of its own. -/
inductive Segment (α : Type) where
  | constant (value : List α)
  | interpolant (base : List α) (rows : List (List α))

structure Solution (α : Type) where
  start : α
  steps : List (α × Segment α)

variable {α : Type} [Scalar α]

namespace Segment

def accumulate (x : α) : Bool → List α → List (List α) → List α
  | _, y, [] => y
  | even, y, row :: rows =>
    let factor := if even then x else Scalar.ofNat 1 - x
    accumulate x (!even) ((List.zipWith (· + ·) y row).map (· * factor)) rows

def eval (s : Segment α) (t0 t1 t : α) : List α :=
  match s with
  | constant value => value
  | interpolant base rows =>
    let x := (t - t0) / (t1 - t0)
    List.zipWith (· + ·) (accumulate x true (base.map fun _ ↦ Scalar.ofNat 0) rows.reverse) base

end Segment

namespace Solution

def times (s : Solution α) : List α := s.start :: s.steps.map Prod.fst

def finish (s : Solution α) : α := s.times.getLastD s.start

def isForward (s : Solution α) : Bool := s.start ≤ s.finish

def low (s : Solution α) : α := if s.isForward then s.start else s.finish

def high (s : Solution α) : α := if s.isForward then s.finish else s.start

/-- The segment for a time; at a boundary that of the earlier step. What is not a number counts as
above all times. -/
def segmentIndex (s : Solution α) (t : α) : Nat :=
  let last := s.steps.length - 1
  let below :=
    if !(t == t) then s.times.length
    else if s.isForward then s.times.countP (fun u ↦ u < t)
    else s.times.countP (fun u ↦ u ≤ t)
  let k := min (below - 1) last
  if s.isForward then k else last - k

def eval (s : Solution α) (t : α) : Except (Failure α) (List α) :=
  let i := s.segmentIndex t
  match s.times[i]?, s.steps[i]? with
  | some t0, some (t1, segment) => .ok (segment.eval t0 t1 t)
  | _, _ => .error (.mishap .readPastEnd)

def output (s : Solution α) : Output α := ⟨s.start, s.low, s.high, s.eval⟩

def outputOf : Option (Solution α) → Except (Defect α) (Output α)
  | some s => .ok s.output
  | none => .error .noDenseOutput

end Solution

end OrbitReplay.Dense
