import OrbitReplay.Scalar

namespace OrbitReplay.Hermite

variable {α : Type} [Scalar α]

structure Knot (α : Type) where
  abscissa : α
  jet : List α

/-- A place in an interpolation scheme: an abscissa and how often it was taken up before. -/
structure Node (α : Type) where
  abscissa : α
  order : Nat

def knots (xs : List α) (orders : List (List α)) : List (Knot α) :=
  orders.foldr (List.zipWith fun y k ↦ { k with jet := y :: k.jet }) (xs.map (⟨·, []⟩))

/-- What is not a number comes last. -/
def precedes (x y : α) : Bool := x < y || x == x && !(y == y)

def place (k : Knot α) : List (Knot α) → List (Knot α)
  | [] => [k]
  | j :: rest => if precedes k.abscissa j.abscissa then k :: j :: rest else j :: place k rest

theorem perm_place (k : Knot α) (ks : List (Knot α)) : (place k ks).Perm (k :: ks) := by
  induction ks with
  | nil => exact .refl _
  | cons j rest ih =>
    rw [place]
    split
    · exact .refl _
    · exact (ih.cons j).trans (.swap k j rest)

def ascending (ks : List (Knot α)) : List (Knot α) := ks.foldr place []

theorem perm_ascending (ks : List (Knot α)) : (ascending ks).Perm ks := by
  induction ks with
  | nil => exact .refl _
  | cons k ks ih => exact (perm_place k (ascending ks)).trans (ih.cons k)

/-- Counts how often each abscissa stands just before, the latest one first in `seen`. There is no
count for a value that differs from itself. -/
def count? (seen : List α) : List α → Option (List (Node α))
  | [] => some []
  | x :: rest =>
    if x == x then
      (count? (x :: seen) rest).map (⟨x, (seen.takeWhile (· == x)).length⟩ :: ·)
    else none

def nodes? : List α → Option (List (Node α))
  | [] => some []
  | x :: rest => (count? [x] rest).map (⟨x, 0⟩ :: ·)

def distinct : List α → Bool
  | [] => true
  | x :: rest => !rest.any (Scalar.same x) && distinct rest

end OrbitReplay.Hermite
