import OrbitReplay.Defect

namespace OrbitReplay

/-- The second option is taken as given; only whether it is on matters. -/
structure Options (α : Type) where
  points : Nat := 3
  points_pos : 0 < points := by decide
  persistent : Setting α := .bool true

namespace Options

variable {α : Type}

def names : List String := ["interpolation_points", "persistent_hint"]

def check (points persistent : Setting α) : Except (Defect α) (Options α) :=
  match points with
  | .int n =>
    if h : 1 ≤ n then .ok ⟨n.toNat, by omega, persistent⟩ else .error (.pointsBelowOne n)
  | v => .error (.pointsNotInteger v)

/-- The given settings, with defaults for what is absent. Unknown names are refused before any value
is looked at, and reported in alphabetical order. -/
def ofMapping (given : List (String × Setting α)) : Except (Defect α) (Options α) :=
  let unknown := (given.map Prod.fst).filter (!names.contains ·)
  if unknown.isEmpty then
    check ((given.lookup "interpolation_points").getD (.int 3))
      ((given.lookup "persistent_hint").getD (.bool true))
  else .error (.unknownOptions (unknown.mergeSort fun a b ↦ decide (a ≤ b)))

end Options

end OrbitReplay
