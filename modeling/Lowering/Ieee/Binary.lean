import Lowering.Power

/-!
# Binary floating-point data

A datum is its bit pattern, so two data are equal exactly when their bits are: both zeros and every
NaN payload stay apart. `read` gives a datum its meaning as `m · 2^q` with a sign, `round` goes back
to the nearest datum, and `eqv` is the comparison under which the zeros agree and a NaN differs from
itself.
-/

namespace Lowering

/-- The two interchange formats: 32 and 64 bits. -/
inductive Precision
  | single | double
  deriving DecidableEq, Repr

namespace Precision

/-- Bits of a datum. -/
def width : Precision → Nat
  | single => 32
  | double => 64

/-- Bits of the fraction field. -/
def fracBits : Precision → Nat
  | single => 23
  | double => 52

/-- Bits of the exponent field. -/
def expBits : Precision → Nat
  | single => 8
  | double => 11

/-- The exponent field of infinities and NaNs. -/
def expTop (p : Precision) : Nat := 2 ^ p.expBits - 1

/-- The least binary exponent: every finite datum is a multiple of `2 ^ minExp`. -/
def minExp : Precision → Int
  | single => -149
  | double => -1074

end Precision

/-- A datum of precision `p`, given by its bits: sign, exponent field, fraction field. -/
structure Binary (p : Precision) where
  bits : BitVec p.width
  deriving DecidableEq

/-- What a bit pattern stands for. A finite datum is `m · 2^q`, negated if `negative`. -/
inductive Reading
  | nan
  | infinite (negative : Bool)
  | finite (negative : Bool) (m : Nat) (q : Int)
  deriving DecidableEq, Repr

namespace Binary

variable {p : Precision}

/-! ## Fields -/

/-- Whether the sign bit is set; zeros and NaNs have one too. -/
def negative (x : Binary p) : Bool := x.bits.msb

/-- The exponent field. -/
def exponent (x : Binary p) : Nat := x.bits.toNat / 2 ^ p.fracBits % 2 ^ p.expBits

/-- The fraction field. -/
def fraction (x : Binary p) : Nat := x.bits.toNat % 2 ^ p.fracBits

/-- The datum with the given sign whose remaining bits are those of `magnitude`. -/
def assemble (p : Precision) (negative : Bool) (magnitude : Nat) : Binary p :=
  ⟨BitVec.ofNat _ ((if negative then 2 ^ (p.width - 1) else 0) + magnitude)⟩

def isNaN (x : Binary p) : Bool := x.exponent == p.expTop && x.fraction != 0

def isInfinite (x : Binary p) : Bool := x.exponent == p.expTop && x.fraction == 0

def isFinite (x : Binary p) : Bool := x.exponent != p.expTop

/-- Whether the datum is one of the two zeros. -/
def isZero (x : Binary p) : Bool := x.exponent == 0 && x.fraction == 0

/-- Positive zero. -/
def zero (p : Precision) : Binary p := assemble p false 0

/-- The infinity of the given sign. -/
def infinity (p : Precision) (negative : Bool) : Binary p :=
  assemble p negative (p.expTop * 2 ^ p.fracBits)

/-- The meaning of the bits. -/
def read (x : Binary p) : Reading :=
  if x.isNaN then .nan
  else if x.isInfinite then .infinite x.negative
  else if x.exponent = 0 then .finite x.negative x.fraction p.minExp
  else .finite x.negative (2 ^ p.fracBits + x.fraction) (p.minExp + (x.exponent - 1 : Nat))

/-! ## Rounding -/

/-- Divides by `2 ^ s`, to nearest, a half to the even neighbour. -/
def shiftRounded (m s : Nat) : Nat :=
  let quotient := m / 2 ^ s
  let rest := m % 2 ^ s
  if 2 * rest < 2 ^ s then quotient
  else if 2 * rest = 2 ^ s then quotient + quotient % 2
  else quotient + 1

/-- The bits, sign apart, of the datum nearest to `m · 2^q`. The exponent is the least one that
leaves no more than `fracBits + 1` significant bits; a carry out of the rounded significand moves
into the exponent field by itself, and what passes the largest finite datum is infinite. -/
def roundMagnitude (p : Precision) (m : Nat) (q : Int) : Nat :=
  if m = 0 then 0
  else
    let unit := max p.minExp (q + (m.log2 : Int) - p.fracBits)
    let significand :=
      if unit ≤ q then m * 2 ^ (q - unit).toNat else shiftRounded m (unit - q).toNat
    min ((unit - p.minExp).toNat * 2 ^ p.fracBits + significand) (p.expTop * 2 ^ p.fracBits)

/-- The datum nearest to `m · 2^q`, a half to the even neighbour. -/
def round (p : Precision) (negative : Bool) (m : Nat) (q : Int) : Binary p :=
  assemble p negative (roundMagnitude p m q)

/-! ## Comparison -/

/-- Numeric equality: the two zeros agree and a NaN agrees with nothing. -/
def eqv (x y : Binary p) : Bool :=
  !x.isNaN && !y.isNaN && (x.bits == y.bits || (x.isZero && y.isZero))

end Binary

end Lowering
