namespace OrbitReplay.Decimal

/-- The value `significand * 2 ^ exponent`, with the reals that round to it: half a unit of the last
place on either side, a quarter below a power of two, the ends included when the significand is
even. -/
structure Binary where
  significand : Nat
  exponent : Int
  afterPowerOfTwo : Bool

structure Shortest where
  significand : Nat
  exponent : Int
deriving DecidableEq

def Binary.ofFields (biased fraction : Nat) : Binary :=
  if biased = 0 then ⟨fraction, -1074, false⟩
  else ⟨Nat.pow 2 52 + fraction, biased - 1075, fraction = 0 && 1 < biased⟩

namespace Binary

def scale (b : Binary) (p : Int) : Nat × Nat :=
  (Nat.pow 10 p.toNat * Nat.pow 2 (2 - b.exponent).toNat,
    Nat.pow 10 (-p).toNat * Nat.pow 2 (b.exponent - 2).toNat)

def value (b : Binary) : Nat := 4 * b.significand

def low (b : Binary) : Nat := b.value - if b.afterPowerOfTwo then 1 else 2

def high (b : Binary) : Nat := b.value + 2

def rounds (b : Binary) (p : Int) (d : Nat) : Bool :=
  let (dec, bin) := b.scale p
  if b.significand % 2 = 0 then b.low * bin ≤ d * dec && d * dec ≤ b.high * bin
  else b.low * bin < d * dec && d * dec < b.high * bin

def onGrid (b : Binary) (p : Int) : Option Nat :=
  let (dec, bin) := b.scale p
  let d := b.value * bin / dec
  match b.rounds p d, b.rounds p (d + 1) with
  | false, false => none
  | true, false => some d
  | false, true => some (d + 1)
  | true, true =>
    let gap := 2 * (b.value * bin)
    let middle := (2 * d + 1) * dec
    if gap < middle then some d
    else if middle < gap then some (d + 1)
    else if d % 2 = 0 then some d
    else some (d + 1)

def leading (b : Binary) : Int :=
  let num := b.significand * Nat.pow 2 b.exponent.toNat
  let den := Nat.pow 2 (-b.exponent).toNat
  if den ≤ num then (Nat.toDigits 10 (num / den)).length - 1
  else -(Nat.toDigits 10 ((den + num - 1) / num - 1)).length

/-- The fewest digits that read back as the same value, the nearest such decimal if there are
several, and of two as near the one with an even last digit. Seventeen digits always suffice, so the
default is never taken. -/
def shortest (b : Binary) : Shortest :=
  let found := (List.range 17).findSome? fun (n : Nat) ↦
    let p := b.leading - n
    (b.onGrid p).map fun d ↦ if d % 10 = 0 then ⟨d / 10, p + 1⟩ else ⟨d, p⟩
  found.getD ⟨b.significand, b.exponent⟩

end Binary

end OrbitReplay.Decimal
