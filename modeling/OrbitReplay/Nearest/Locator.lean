import OrbitReplay.Nearest.Search

namespace OrbitReplay.Nearest

structure Locator where
  persistent : Bool
  hint : Int := 0

namespace Locator

variable {α : Type} [Scalar α]

/-- Where the next search on a list of the given length starts. A hint that counts from the end is
kept even if the list has become shorter. -/
def start (l : Locator) (length : Nat) : Int :=
  if !l.persistent || length ≤ l.hint then 0 else l.hint

def locate? (l : Locator) (dates : List α) (date : α) : Option Int × Locator :=
  let hint := l.start dates.length
  match nearest? dates date hint with
  | some i => (some i, { l with hint := i })
  | none => (none, { l with hint })

def reset (l : Locator) : Locator := { l with hint := 0 }

end Locator

end OrbitReplay.Nearest
