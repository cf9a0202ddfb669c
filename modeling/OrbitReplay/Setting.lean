import OrbitReplay.Decimal.Layout
import OrbitReplay.Text.Quoted
import OrbitReplay.Scalar

namespace OrbitReplay

inductive Setting (α : Type) where
  | none
  | bool (b : Bool)
  | int (n : Int)
  | number (x : α)
  | text (s : String)
  | list (vs : List (Setting α))

namespace Setting

/-- Nothing, false, zero, the empty text and the empty list switch an option off; all else switches
it on. -/
def isOn {α : Type} [Scalar α] : Setting α → Bool
  | .none => false
  | .bool b => b
  | .int n => n != 0
  | .number x => !(x == Scalar.ofNat 0)
  | .text s => !s.isEmpty
  | .list vs => !vs.isEmpty

mutual

def print : Setting Float → String
  | .none => "None"
  | .bool true => "True"
  | .bool false => "False"
  | .int n => toString n
  | .number x => Decimal.text x
  | .text s => Text.quoted s
  | .list vs => "[" ++ ", ".intercalate (printAll vs) ++ "]"

def printAll : List (Setting Float) → List String
  | [] => []
  | v :: vs => v.print :: printAll vs

end

end Setting

end OrbitReplay
