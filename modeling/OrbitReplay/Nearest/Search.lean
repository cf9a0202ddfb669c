import OrbitReplay.Scalar

namespace OrbitReplay.Nearest

/-- The entry at a position; `-1` is the last one. -/
def at? {β : Type} (xs : List β) : Int → Option β
  | .ofNat n => xs[n]?
  | .negSucc n => xs.reverse[n]?

theorem at?_natCast {β : Type} (xs : List β) (n : Nat) : at? xs n = xs[n]? := rfl

variable {α : Type} [Scalar α]

section Walk

variable (read : Int → Option α) (date : α)

def climb : Nat → Int → Option Int
  | 0, _ => none
  | n + 1, i =>
    match read i with
    | none => none
    | some d => if d < date then climb n (i + 1) else some i

def descend : Nat → Int → Option Int
  | 0, _ => none
  | n + 1, i =>
    match read i with
    | none => none
    | some d => if date < d then descend n (i - 1) else some i

def nearer? (lower upper : Int) : Option Int :=
  match read lower, read upper with
  | some l, some u =>
    some (if Scalar.distance date l ≤ Scalar.distance u date then lower else upper)
  | _, _ => none

/-- The search on `count` samples, from a hint. It reads them by their positions, and `none` says
that a read failed. Negative positions count back from the end; a walk downwards comes to them only
if the first sample or the date is not a number. -/
def search (count : Nat) (hint : Int) : Option Int :=
  match read 0, read (count - 1) with
  | some first, some last =>
    if date ≤ first then some 0
    else if last ≤ date then some (count - 1)
    else
      match read hint with
      | none => none
      | some here =>
        if here < date then
          (climb read date (count - (hint + 1)).toNat (hint + 1)).bind fun u ↦
            nearer? read date (u - 1) u
        else
          (descend read date (count + hint).toNat (hint - 1)).bind fun l ↦
            nearer? read date l (l + 1)
  | _, _ => none

end Walk

def nearest? (dates : List α) (date : α) (hint : Int) : Option Int :=
  search (at? dates) date dates.length hint

end OrbitReplay.Nearest
