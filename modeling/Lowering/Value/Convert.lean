import Lowering.Value

/-!
# Conversions between kinds

`convert` is a cast: integers wrap, floats lose their fraction, reals become complex.
`represent` is the conversion that binding a constant needs: it must keep the number, and says why
when it cannot. A float may still lose low bits when it moves to a smaller precision; only a result
beyond the largest finite datum is refused.
-/

namespace Lowering

/-- Why a value has no representation in a kind. -/
inductive ReprError
  /-- The kinds have nothing in common. -/
  | incompatible
  /-- A fraction or an imaginary part would be lost. -/
  | truncated
  /-- The number is out of range. -/
  | overflow
  deriving DecidableEq, Repr

namespace Value

/-- The integer that a cast starts from; a float loses its fraction. -/
def castInt? : Value → Option Int
  | integer _ z _ => some z
  | float _ x => some x.toDouble.saturate
  | _ => none

/-- Converts as a cast does; nothing if the kinds do not convert. An interface takes any value as
it is. -/
def convert (v : Value) (kind : Kind) : Option Value :=
  if kind = .interface ∨ kind = v.kind then some v
  else
    match kind with
    | .integer k => v.castInt?.map (wrapped k)
    | .float p => v.toDouble?.map (rounded p)
    | .complex p => v.toComplex?.map (roundedComplex p)
    | _ => none

/-- The integer that the value equals. -/
def exactInt (v : Value) : Except ReprError Int :=
  match v.toInt?, v.toComplex? with
  | some z, _ => .ok z
  | none, none => .error .incompatible
  | none, some c =>
    if c.im.isZero then
      match c.re.integer? with
      | some z => .ok z
      | none => .error .truncated
    else .error .truncated

/-- Whether a finite datum becomes infinite in precision `p`. -/
def overflows (p : Precision) (x : Double) : Bool :=
  x.isFinite && (Binary.ofDouble p x).isInfinite

/-- Converts without changing the number, or says why not. An interface takes any value as it is. -/
def represent (v : Value) (kind : Kind) : Except ReprError Value :=
  if kind = .interface ∨ kind = v.kind then .ok v
  else
    match kind with
    | .integer k =>
      match v.exactInt with
      | .ok z => (integer? k z).elim (.error .overflow) .ok
      | .error e => .error e
    | .float p =>
      match v.toComplex? with
      | none => .error .incompatible
      | some c =>
        if !c.im.isZero then .error .truncated
        else if overflows p c.re then .error .overflow
        else .ok (rounded p c.re)
    | .complex p =>
      match v.toComplex? with
      | none => .error .incompatible
      | some c =>
        if overflows p c.re || overflows p c.im then .error .overflow
        else .ok (roundedComplex p c)
    | _ => .error .incompatible

end Value

end Lowering
