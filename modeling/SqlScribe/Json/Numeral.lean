import SqlScribe.Json.Reader

/-!
# The values of numbers

What a written number is worth. A whole number is exact as long as it fits 64 bits.
Every other number is read in two steps with one rounding each: its digits, as many as
fit 64 bits, become a double, and that is multiplied or divided by a power of ten.
-/

namespace SqlScribe

/-- The parts of a written number. -/
structure Numeral where
  negative : Bool
  whole : Text
  fraction : Text
  exponent : Int
  /-- Neither a fraction nor an exponent is written. -/
  isWhole : Bool
deriving DecidableEq, Repr

namespace Numeral

/-- The number that digits spell. -/
def digitsValue (ds : Text) : Nat := ds.foldl (fun n c => 10 * n + (c.toNat - 48)) 0

/-- The exponent written behind an `e`. -/
def exponentOf (t : Text) : Int :=
  match t with
  | '-' :: ds => -(digitsValue ds : Int)
  | '+' :: ds => digitsValue ds
  | ds => digitsValue ds

/-- The parts of a number that has the form of one. -/
def ofWritten (written : Text) : Numeral :=
  let negative := written.head? == some '-'
  let unsigned := if negative then written.drop 1 else written
  let mantissa := unsigned.takeWhile fun c => c != 'e' && c != 'E'
  let exponent := unsigned.drop (mantissa.length + 1)
  let whole := mantissa.takeWhile (· != '.')
  let fraction := mantissa.drop (whole.length + 1)
  ⟨negative, whole, fraction, exponentOf exponent, whole.length == unsigned.length⟩

/-- The largest number of 64 bits. -/
def maxWord : Nat := 18446744073709551615

/-- `n` with as many digits behind it as fit 64 bits, and the digits that do not. -/
def absorb (n : Nat) : Text → Nat × Text
  | [] => (n, [])
  | d :: ds =>
      let next := 10 * n + (d.toNat - 48)
      if next ≤ maxWord then absorb next ds else (n, d :: ds)

/-- The double times a power of ten; `none` when that is too large. A power beyond the
range of doubles is divided by in parts, of which three are enough. -/
def scale? (f : Float) (exponent : Int) : (parts : Nat) → Option Float
  | 0 => some f
  | parts + 1 =>
      if exponent.natAbs ≤ 308 then
        let power := Float.ofScientific 1 false exponent.natAbs
        if 0 ≤ exponent then
          let g := f * power
          if g.isInf then none else some g
        else some (f / power)
      else if f == 0 then some f
      else if 0 ≤ exponent then none
      else scale? (f / Float.ofScientific 1 false 308) (exponent + 308) parts

/-- The number as a double; `none` when it is too large for one. -/
def double? (n : Numeral) : Option Float :=
  let (w, wholeRest) := absorb 0 n.whole
  let (s, fractionRest) := absorb w n.fraction
  let taken : Int := n.fraction.length - fractionRest.length
  let exponent := n.exponent + wholeRest.length - taken
  (scale? (UInt64.ofNat s).toFloat exponent 3).map fun f => if n.negative then -f else f

/-- The size of the smallest signed number of 64 bits. -/
def maxNegative : Nat := 9223372036854775808

/-- The number in single precision; `none` when it is too large for a double. A whole number
of 64 bits is rounded once, every other number by way of a double. -/
def single? (n : Numeral) : Option Float32 :=
  let v := digitsValue n.whole
  if n.isWhole && !n.negative && v ≤ maxWord then some (UInt64.ofNat v).toFloat32
  else if n.isWhole && n.negative && 0 < v && v ≤ maxNegative then
    some (-(UInt64.ofNat v).toFloat32)
  else n.double?.map Float.toFloat32

/-- The number, when it is written as a natural number and at most `max`. -/
def natUpTo? (max : Nat) (n : Numeral) : Option Nat :=
  let v := digitsValue n.whole
  if n.isWhole && !n.negative && v ≤ max then some v else none

end Numeral

end SqlScribe
