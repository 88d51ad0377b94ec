import SqlScribe.Text.Basic

/-!
# Decimals of single-precision numbers

The shortest decimal that reads back as a given number. A finite positive number is
`m · 2^q`, and the reals that round to it form an interval around it. Of the grids of
multiples of a power of ten the coarsest is taken on which a neighbour of the number
lies in the interval; of two neighbours there the nearer one, and of two as near the
even one. All of it is exact arithmetic of natural numbers.
-/

namespace SqlScribe

/-! ## Numbers and their intervals -/

/-- A positive binary number `m · 2^q` with the interval of the reals that round to it,
all in quarters of `2^q`. -/
structure BinaryInterval where
  low : Nat
  mid : Nat
  high : Nat
  /-- Whether the ends belong to the interval. -/
  closed : Bool
  exponent : Int
deriving DecidableEq, Repr

/-- The interval of the positive number with this biased exponent and this fraction. -/
def BinaryInterval.ofFields (exponent fraction : Nat) : BinaryInterval :=
  let m := if exponent = 0 then fraction else fraction + Nat.pow 2 23
  let q : Int := (if exponent = 0 then 1 else exponent : Nat) - 150
  let below := if fraction = 0 ∧ 1 < exponent then 1 else 2
  ⟨4 * m - below, 4 * m, 4 * m + 2, m % 2 == 0, q - 2⟩

/-- `digits · 10^exponent`. -/
structure Decimal where
  digits : Nat
  exponent : Int
deriving DecidableEq, Repr

namespace BinaryInterval

/-- The multiple of `10^k` to write for the number, if one of its neighbours among those
multiples lies in the interval. -/
def onGrid? (b : BinaryInterval) (k : Int) : Option Nat :=
  -- both sides are multiplied until they are whole
  let scale := Nat.pow 2 b.exponent.toNat * Nat.pow 10 (-k).toNat
  let grid := Nat.pow 2 (-b.exponent).toNat * Nat.pow 10 k.toNat
  let low := b.low * scale
  let mid := b.mid * scale
  let high := b.high * scale
  let inside (c : Nat) : Bool :=
    if b.closed then low ≤ c * grid && c * grid ≤ high else low < c * grid && c * grid < high
  let c := mid / grid
  let down := mid - c * grid
  let up := (c + 1) * grid - mid
  match inside c, inside (c + 1) with
  | true, true =>
      if down < up then some c
      else if up < down then some (c + 1)
      else if c % 2 = 0 then some c else some (c + 1)
  | true, false => some c
  | false, true => some (c + 1)
  | false, false => none

/-- The decimal on the coarsest grid from `10^k` down to `10^(k - n)`. -/
def shortestFrom (b : BinaryInterval) (k : Int) : (n : Nat) → Decimal
  | 0 => ⟨(b.onGrid? k).getD 0, k⟩
  | n + 1 =>
      match b.onGrid? k with
      | some c => ⟨c, k⟩
      | none => shortestFrom b (k - 1) n

/-- The shortest decimal in the interval. No number of single precision reaches `10^39`,
and all of them are multiples of `10^(-149)`. -/
def shortest (b : BinaryInterval) : Decimal := b.shortestFrom 39 188

end BinaryInterval

/-! ## Writing a decimal -/

/-- Which decimals are written without an exponent: those below `10^wholeDigits` that begin
before the `fractionZeros`-th place behind the point. -/
structure DecimalLayout where
  wholeDigits : Int
  fractionZeros : Int
deriving DecidableEq, Repr

/-- Up to thirteen digits in front of the point, up to five zeros behind it. -/
def DecimalLayout.plain : DecimalLayout := ⟨13, 6⟩

/-- The decimal as it is written, with a fraction wherever there is no exponent. -/
def Decimal.text (layout : DecimalLayout) (d : Decimal) : Text :=
  let ds := Text.ofNat d.digits
  let point : Int := ds.length + d.exponent
  if 0 ≤ d.exponent ∧ point ≤ layout.wholeDigits then
    ds ++ List.replicate d.exponent.toNat '0' ++ ".0"
  else if 0 < point ∧ point ≤ layout.wholeDigits then
    ds.take point.toNat ++ "." ++ ds.drop point.toNat
  else if -layout.fractionZeros < point ∧ point ≤ 0 then
    "0." ++ List.replicate (-point).toNat '0' ++ ds
  else
    let fraction : Text := if ds.length = 1 then [] else "." ++ ds.drop 1
    ds.take 1 ++ fraction ++ "e" ++ Text.ofInt (point - 1)

/-- The number in its shortest decimal, `none` when it is not finite. -/
def singleText? (x : Float32) : Option Text :=
  let bits := x.toBits.toNat
  let exponent := bits / Nat.pow 2 23 % 256
  let fraction := bits % Nat.pow 2 23
  let sign : Text := if Nat.pow 2 31 ≤ bits then "-" else []
  if exponent = 255 then none
  else if exponent = 0 ∧ fraction = 0 then some (sign ++ "0.0")
  else some (sign ++ (BinaryInterval.ofFields exponent fraction).shortest.text .plain)

end SqlScribe
