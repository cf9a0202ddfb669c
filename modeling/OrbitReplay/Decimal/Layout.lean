import OrbitReplay.Decimal.Shortest

namespace OrbitReplay.Decimal

structure Layout where
  leastPositional : Int
  positionalBelow : Int
  wholeEnding : String
  exponentMark : String
  exponentDigits : Nat
  notANumber : String
  infinite : String

/-- Numbers from 0.0001 to below 10^16 are positional and keep a fraction; exponents have a sign and
two digits. -/
def Layout.standard : Layout where
  leastPositional := -4
  positionalBelow := 16
  wholeEnding := ".0"
  exponentMark := "e"
  exponentDigits := 2
  notANumber := "nan"
  infinite := "inf"

namespace Layout

def zeros (n : Nat) : String := String.ofList (List.replicate n '0')

def positional (l : Layout) (digits : List Char) (e : Int) : String :=
  let whole := (e + 1).toNat
  if e < 0 then "0." ++ zeros (-e - 1).toNat ++ String.ofList digits
  else if digits.length ≤ whole then
    String.ofList digits ++ zeros (whole - digits.length) ++ l.wholeEnding
  else String.ofList (digits.take whole) ++ "." ++ String.ofList (digits.drop whole)

def scientific (l : Layout) (digits : List Char) (e : Int) : String :=
  let power := toString e.natAbs
  let fraction := if digits.length ≤ 1 then "" else "." ++ String.ofList (digits.drop 1)
  String.ofList (digits.take 1) ++ fraction ++ l.exponentMark ++ (if e < 0 then "-" else "+") ++
    zeros (l.exponentDigits - power.length) ++ power

def decimal (l : Layout) (s : Shortest) : String :=
  let digits := Nat.toDigits 10 s.significand
  let e := s.exponent + (digits.length - 1 : Nat)
  if l.leastPositional ≤ e ∧ e < l.positionalBelow then l.positional digits e
  else l.scientific digits e

example : Layout.standard.decimal ⟨1, 15⟩ = "1000000000000000.0" := by decide +kernel

example : Layout.standard.decimal ⟨1, 16⟩ = "1e+16" := by decide +kernel

example : Layout.standard.decimal ⟨1, -4⟩ = "0.0001" := by decide +kernel

example : Layout.standard.decimal ⟨15, -6⟩ = "1.5e-05" := by decide +kernel

def fields (l : Layout) (negative : Bool) (biased fraction : Nat) : String :=
  let sign := if negative then "-" else ""
  if biased = 2047 then
    if fraction = 0 then sign ++ l.infinite else l.notANumber
  else if biased = 0 ∧ fraction = 0 then sign ++ "0" ++ l.wholeEnding
  else sign ++ l.decimal (Binary.ofFields biased fraction).shortest

end Layout

def text (x : Float) : String :=
  let bits := x.toBits.toNat
  Layout.standard.fields (bits / Nat.pow 2 63 = 1) (bits / Nat.pow 2 52 % Nat.pow 2 11)
    (bits % Nat.pow 2 52)

example : text 5e-324 = "5e-324" := by decide +kernel

example : text 1125899906842624.25 = "1125899906842624.2" := by decide +kernel

end OrbitReplay.Decimal
