import OrbitReplay.Setting
import OrbitReplay.Tensor

namespace OrbitReplay

inductive Defect (α : Type) where
  | pointsNotInteger (given : Setting α)
  | pointsBelowOne (given : Int)
  | unknownOptions (names : List String)
  | dateNotFinite (date : α)
  | noAbscissa
  | valuesShape (shape : List Nat) (samples : Nat)
  | repeatedAbscissa
  | derivativeShape (order : Nat) (shape expected : List Nat)
  | negativeFactorial
  | rawShape (shape : List Nat)
  | rawNotFinite (head : List α)
  | massNotPositive (mass : α)
  | tooFewBoundaries
  | statesShape (shape : List Nat) (boundaries : Nat)
  | slopesShape (shape expected : List Nat)
  | boundariesNotMonotonic
  | timeNotFinite
  | stateNotFinite
  | slopeNotFinite
  | outsideSpan (time low high : α)
  | noDenseOutput
  | spanReversed (low high : α)
  | startInside (start : α)
  | channelLength (name : String) (length : Int)

namespace Defect

open Decimal (text)
open Text (quoted)

/-- How a list of numbers is printed is up to the array library. -/
def message (array : List Float → String) : Defect Float → String
  | pointsNotInteger v => "interpolation_points must be an integer, got " ++ v.print
  | pointsBelowOne n => "interpolation_points must be >= 1, got " ++ toString n
  | unknownOptions names => "unknown grid settings: " ++ ", ".intercalate names
  | dateNotFinite date => "grid dates must be finite, got " ++ text date
  | noAbscissa => "at least one sample abscissa is required"
  | valuesShape shape n =>
    "values have shape " ++ shapeText shape ++ ", expected (" ++ toString n ++ ",) or (" ++
      toString n ++ ", d)"
  | repeatedAbscissa => "sample abscissae must be distinct"
  | derivativeShape order shape expected =>
    "derivative order " ++ toString order ++ " has shape " ++ shapeText shape ++ ", expected " ++
      shapeText expected
  | negativeFactorial => "factorial() not defined for negative values"
  | rawShape shape =>
    "raw state must be a vector of at least 7 entries, got shape " ++ shapeText shape
  | rawNotFinite head => "non-finite orbit or mass entries: " ++ array head
  | massNotPositive mass => "mass must be strictly positive, got " ++ text mass
  | tooFewBoundaries => "t must be a 1-D array with at least two boundaries"
  | statesShape shape n =>
    "Y has shape " ++ shapeText shape ++ ", expected (" ++ toString n ++ ", n)"
  | slopesShape shape expected =>
    "Ydot has shape " ++ shapeText shape ++ ", expected " ++ shapeText expected
  | boundariesNotMonotonic => "step boundaries must be strictly monotonic"
  | timeNotFinite => "`x` must contain only finite values."
  | stateNotFinite => "`y` must contain only finite values."
  | slopeNotFinite => "`dydx` must contain only finite values."
  | outsideSpan time low high =>
    "time " ++ text time ++ " is outside the dense output span [" ++ text low ++ ", " ++
      text high ++ "]"
  | noDenseOutput =>
    "integration result carries no dense output; call solve_ivp with dense_output=True"
  | spanReversed low high => "min_date " ++ text low ++ " is after max_date " ++ text high
  | startInside start => "start_date " ++ text start ++ " must equal min_date or max_date"
  | channelLength name n =>
    "channel " ++ quoted name ++ " needs a positive length, got " ++ toString n

end Defect

end OrbitReplay
