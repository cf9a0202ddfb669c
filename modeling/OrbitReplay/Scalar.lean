namespace OrbitReplay

/-- Arithmetic and comparisons of dates, states and coefficients, without laws: programs run on
binary64, and on the rationals nothing is rounded. A comparison with a value that is not a number
may be false both ways, and such a value differs from itself. -/
class Scalar (α : Type) extends Add α, Sub α, Mul α, Div α, LT α, LE α, BEq α where
  decLt : DecidableLT α
  decLe : DecidableLE α
  ofNat : Nat → α
  abs : α → α
  isFinite : α → Bool

namespace Scalar

variable {α : Type} [Scalar α]

instance : DecidableLT α := decLt

instance : DecidableLE α := decLe

def same (x y : α) : Bool := x == y || !(x == x) && !(y == y)

def distance (x y : α) : α := abs (x - y)

/-- The second only if it is greater, so a first that is not a number stays. -/
def larger (x y : α) : α := if x < y then y else x

def smaller (x y : α) : α := if y < x then y else x

def epsilon : α := ofNat 1 / ofNat (Nat.pow 2 52)

end Scalar

instance : Scalar Float where
  decLt := Float.decLt
  decLe := Float.decLe
  ofNat := Float.ofNat
  abs := Float.abs
  isFinite := Float.isFinite

instance : Scalar Rat where
  decLt := inferInstance
  decLe := inferInstance
  ofNat n := n
  abs x := if x < 0 then -x else x
  isFinite _ := true

end OrbitReplay
