import Lowering.Ieee.Binary

/-!
# Shortest decimals that read back

A finite datum owns the interval of reals that round to it. Among the decimals in that interval,
`shortest` takes one with the fewest significant digits, and of those the nearest to the datum; an
exact tie goes up. All arithmetic is on natural numbers: the datum and the two ends of its interval
are fractions over one common denominator.
-/

namespace Lowering

/-- The decimal number `coefficient · 10 ^ exponent`. -/
structure Decimal where
  coefficient : Nat
  exponent : Int
  deriving DecidableEq, Repr

/-- The reals that round to one positive datum: `value`, and the ends `low` and `high`, all over
`denominator`. The ends belong to the interval iff `closed`. -/
structure RoundingInterval where
  low : Nat
  value : Nat
  high : Nat
  denominator : Nat
  closed : Bool

namespace RoundingInterval

/-- The interval of `m · 2^q`. It reaches half a unit up and down, but only a quarter of a unit
down where the next smaller datum has a smaller exponent. The ends round to the datum iff its
significand is even. -/
def ofFinite (p : Precision) (m : Nat) (q : Int) : RoundingInterval :=
  let scale := 2 ^ (q - 2).toNat
  let below := if m = 2 ^ p.fracBits ∧ p.minExp < q then 1 else 2
  { low := (4 * m - below) * scale
    value := 4 * m * scale
    high := (4 * m + 2) * scale
    denominator := 2 ^ (2 - q).toNat
    closed := m % 2 == 0 }

/-- Whether the decimal `c · 10^e` lies in the interval. -/
def contains (r : RoundingInterval) (c : Nat) (e : Int) : Bool :=
  let x := c * 10 ^ e.toNat * r.denominator
  let shrink := 10 ^ (-e).toNat
  if r.closed then r.low * shrink ≤ x && x ≤ r.high * shrink
  else r.low * shrink < x && x < r.high * shrink

/-- The number of decimal digits of `n`; one for zero. -/
def digitCount (n : Nat) : Nat := (Nat.toDigits 10 n).length

/-- The `e` with `10^(e-1) ≤ value < 10^e`. -/
def magnitude (r : RoundingInterval) : Int :=
  if r.denominator ≤ r.value then digitCount (r.value / r.denominator)
  else 1 - digitCount ((r.denominator - 1) / r.value)

/-- The decimal with exponent `e` nearest to the value among its two neighbours on that grid that
lie in the interval, if one does. -/
def nearestOnGrid (r : RoundingInterval) (e : Int) : Option Nat :=
  let numerator := r.value * 10 ^ (-e).toNat
  let denominator := r.denominator * 10 ^ e.toNat
  let down := numerator / denominator
  let rest := numerator % denominator
  let up := down + 1
  match r.contains down e, r.contains up e with
  | true, true => some (if 2 * rest < denominator then down else up)
  | true, false => some down
  | false, true => some up
  | false, false => none

/-- Tries grids of one digit, two digits and so on; `tries` bounds the number of digits. -/
def search (r : RoundingInterval) (magnitude : Int) : (digits tries : Nat) → Decimal
  | _, 0 => ⟨r.value / r.denominator, 0⟩
  | digits, tries + 1 =>
    let e := magnitude - digits
    match r.nearestOnGrid e with
    | some c => ⟨c, e⟩
    | none => search r magnitude (digits + 1) tries

end RoundingInterval

namespace Decimal

/-- Moves trailing zeros of the coefficient into the exponent; `fuel` bounds their number. -/
def trim (d : Decimal) : (fuel : Nat) → Decimal
  | 0 => d
  | fuel + 1 =>
    if d.coefficient ≠ 0 ∧ d.coefficient % 10 = 0 then
      trim ⟨d.coefficient / 10, d.exponent + 1⟩ fuel
    else d

/-- The shortest decimal that rounds to `m · 2^q`, where `m` is not zero. Seventeen digits always
suffice. -/
def shortest (p : Precision) (m : Nat) (q : Int) : Decimal :=
  let r := RoundingInterval.ofFinite p m q
  (r.search r.magnitude 1 17).trim 18

/-- Digits, then the exponent's worth of zeros or a point inside: `1200`, `1.2`, `0.0012`. -/
def positional (d : Decimal) : String :=
  let digits := Nat.toDigits 10 d.coefficient
  if 0 ≤ d.exponent then String.ofList (digits ++ List.replicate d.exponent.toNat '0')
  else
    let places := (-d.exponent).toNat
    let padded := List.replicate (places + 1 - digits.length) '0' ++ digits
    let whole := padded.length - places
    String.ofList (padded.take whole ++ '.' :: padded.drop whole)

/-- One digit before the point, a power of ten after the mark `e`: `1e16`, `1.2e-5`. -/
def scientific (d : Decimal) : String :=
  let digits := Nat.toDigits 10 d.coefficient
  let exponent := d.exponent + (digits.length - 1 : Nat)
  let fraction := match digits.tail with
    | [] => []
    | rest => '.' :: rest
  String.ofList (digits.take 1 ++ fraction) ++ "e" ++ toString exponent

end Decimal

end Lowering
