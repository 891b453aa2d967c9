import Lowering.Ieee.Binary

/-!
# Arithmetic in double precision

All arithmetic is done in double precision. A single-precision operand is widened exactly first,
and a result that must be single is rounded once at the end.

NaNs follow one rule: an operation with a NaN operand gives the first NaN operand, made quiet; an
operation that is invalid on numbers gives `Double.invalid`.
-/

namespace Lowering

/-- A double-precision datum. -/
abbrev Double := Binary .double

namespace Binary

/-- Sets the quiet bit of a NaN. -/
def quiet {p : Precision} (x : Binary p) : Binary p :=
  ⟨x.bits ||| BitVec.ofNat _ (2 ^ (p.fracBits - 1))⟩

/-- Flips the sign bit, also of zeros and NaNs. -/
def neg {p : Precision} (x : Binary p) : Binary p :=
  ⟨x.bits ^^^ BitVec.ofNat _ (2 ^ (p.width - 1))⟩

/-- The same number in double precision. A widened NaN keeps its payload at the high end. -/
def toDouble : {p : Precision} → Binary p → Double
  | .double, x => x
  | .single, x =>
    match x.read with
    | .nan =>
      (assemble .double x.negative
        (Precision.expTop .double * 2 ^ 52 + x.fraction * 2 ^ 29)).quiet
    | .infinite negative => infinity .double negative
    | .finite negative m q => round .double negative m q

/-- The nearest datum of precision `p`. A narrowed NaN keeps the high end of its payload. -/
def ofDouble : (p : Precision) → Double → Binary p
  | .double, x => x
  | .single, x =>
    match x.read with
    | .nan =>
      (assemble .single x.negative
        (Precision.expTop .single * 2 ^ 23 + x.fraction / 2 ^ 29)).quiet
    | .infinite negative => infinity .single negative
    | .finite negative m q => round .single negative m q

end Binary

namespace Double

/-- The NaN of an invalid operation. -/
def invalid : Double := (Binary.infinity .double true).quiet

def toFloat (x : Double) : Float := Float.ofBits (UInt64.ofBitVec x.bits)

def ofFloat (x : Float) : Double := ⟨x.toBits.toBitVec⟩

/-- Applies an operation on numbers, under the rule for NaNs. -/
def lift (f : Float → Float → Float) (x y : Double) : Double :=
  if x.isNaN then x.quiet
  else if y.isNaN then y.quiet
  else
    let r := ofFloat (f x.toFloat y.toFloat)
    if r.isNaN then invalid else r

def add (x y : Double) : Double := lift (· + ·) x y

def sub (x y : Double) : Double := lift (· - ·) x y

def mul (x y : Double) : Double := lift (· * ·) x y

def div (x y : Double) : Double := lift (· / ·) x y

/-- Numeric order; false if either side is a NaN. -/
def lt (x y : Double) : Bool := x.toFloat < y.toFloat

/-- Numeric order or equality; false if either side is a NaN. -/
def le (x y : Double) : Bool := x.toFloat ≤ y.toFloat

/-- The datum nearest to an integer. -/
def ofInt (z : Int) : Double := Binary.round .double (decide (z < 0)) z.natAbs 0

/-- The integer part of a finite datum, toward zero; nothing for infinities and NaNs. -/
def truncate (x : Double) : Option Int :=
  match x.read with
  | .finite negative m q =>
    let size := if 0 ≤ q then m * 2 ^ q.toNat else m / 2 ^ (-q).toNat
    some (if negative then -(size : Int) else size)
  | _ => none

/-- The integer that the datum equals, if it equals one. -/
def integer? (x : Double) : Option Int :=
  match x.read with
  | .finite negative m q =>
    if 0 ≤ q ∨ m % 2 ^ (-q).toNat = 0 then
      let size := if 0 ≤ q then m * 2 ^ q.toNat else m / 2 ^ (-q).toNat
      some (if negative then -(size : Int) else size)
    else none
  | _ => none

/-- The least integer of 128 bits. -/
def saturationLo : Int := -(2 ^ 127)

/-- The greatest integer of 128 bits. -/
def saturationHi : Int := 2 ^ 127 - 1

/-- The integer part, clamped to the integers of 128 bits; a NaN counts as zero. -/
def saturate (x : Double) : Int :=
  match x.read with
  | .nan => 0
  | .infinite negative => if negative then saturationLo else saturationHi
  | .finite .. => max saturationLo (min saturationHi (x.truncate.getD 0))

end Double

/-- A complex number in double precision. -/
structure Complex where
  re : Double
  im : Double
  deriving DecidableEq

namespace Complex

def add (x y : Complex) : Complex := ⟨x.re.add y.re, x.im.add y.im⟩

def sub (x y : Complex) : Complex := ⟨x.re.sub y.re, x.im.sub y.im⟩

def neg (x : Complex) : Complex := ⟨x.re.neg, x.im.neg⟩

/-- The product by the schoolbook formula. -/
def mul (x y : Complex) : Complex :=
  ⟨(x.re.mul y.re).sub (x.im.mul y.im), (x.re.mul y.im).add (x.im.mul y.re)⟩

/-- The quotient by the square of the divisor's norm, without scaling. -/
def div (x y : Complex) : Complex :=
  let norm := (y.re.mul y.re).add (y.im.mul y.im)
  ⟨((x.re.mul y.re).add (x.im.mul y.im)).div norm,
   ((x.im.mul y.re).sub (x.re.mul y.im)).div norm⟩

/-- Numeric equality of both parts. -/
def eqv (x y : Complex) : Bool := x.re.eqv y.re && x.im.eqv y.im

/-- Whether both parts are zeros. -/
def isZero (x : Complex) : Bool := x.re.isZero && x.im.isZero

end Complex

end Lowering
