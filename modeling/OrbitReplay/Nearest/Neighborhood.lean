import OrbitReplay.Scalar

namespace OrbitReplay.Nearest

variable {α : Type} [Scalar α]

/-- Takes the nearer of the two outward candidates, the lower one on a tie. `below` samples are left
under the block and the next one above it is `upper`; with nothing left below the upper side fills
up, and with nothing left above the lower side does. -/
def grow (dates : List α) (date : α) : Nat → Nat → Nat → List Nat
  | 0, _, _ => []
  | n + 1, 0, upper => upper :: grow dates date n 0 (upper + 1)
  | n + 1, lower + 1, upper =>
    match dates[lower]?, dates[upper]? with
    | some l, some u =>
      if Scalar.distance l date ≤ Scalar.distance u date then lower :: grow dates date n lower upper
      else upper :: grow dates date n (lower + 1) (upper + 1)
    | _, _ => lower :: grow dates date n lower upper

@[simp]
theorem length_grow (dates : List α) (date : α) (n lower upper : Nat) :
    (grow dates date n lower upper).length = n := by
  induction n generalizing lower upper with
  | zero => rfl
  | succ n ih =>
    cases lower with
    | zero => simp [grow, ih]
    | succ lower =>
      simp only [grow]
      split
      · split <;> simp [ih]
      · simp [ih]

def neighborhood (dates : List α) (date : α) (closest size : Nat) : List Nat :=
  closest :: grow dates date (size - 1) closest (closest + 1)

/-- The same from any position. Below a position that counts from the end there is nothing, and the
block grows upwards only. -/
def neighborhoodAt (dates : List α) (date : α) (closest : Int) (size : Nat) : List Int :=
  match closest with
  | .ofNat c => (neighborhood dates date c size).map Int.ofNat
  | .negSucc _ => (List.range (max size 1)).map fun k ↦ closest + Int.ofNat k

theorem length_neighborhood (dates : List α) (date : α) (closest size : Nat) (h : 0 < size) :
    (neighborhood dates date closest size).length = size := by
  simp only [neighborhood, List.length_cons, length_grow]
  omega

end OrbitReplay.Nearest
