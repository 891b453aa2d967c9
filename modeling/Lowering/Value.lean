import Lowering.Ieee.Double
import Lowering.Kind

/-!
# Constant values

A value is a payload together with its kind. An integer carries the proof that it is in the range
of its kind, so no operation can build one that is not. Two values are equal when their payloads
agree bit for bit; `eqv` compares floats as numbers instead.
-/

namespace Lowering

/-- A concrete constant. -/
inductive Value
  | bool (b : Bool)
  | integer (k : IntKind) (z : Int) (fits : k.Fits z)
  | float (p : Precision) (x : Binary p)
  | complex (p : Precision) (re im : Binary p)
  | string (s : String)
  deriving DecidableEq

namespace Value

def kind : Value → Kind
  | bool _ => .bool
  | integer k _ _ => .integer k
  | float p _ => .float p
  | complex p _ _ => .complex p
  | string _ => .string

/-! ## Building values -/

/-- The value `z` of kind `k`, if it is in range. -/
def integer? (k : IntKind) (z : Int) : Option Value :=
  if h : k.Fits z then some (integer k z h) else none

/-- The value of kind `k` that agrees with `z` on the low bits. -/
def wrapped (k : IntKind) (z : Int) : Value := integer k (k.wrap z) (k.fits_wrap z)

/-- The float of precision `p` nearest to `x`. -/
def rounded (p : Precision) (x : Double) : Value := float p (.ofDouble p x)

/-- The complex number of precision `p` nearest to `c` in both parts. -/
def roundedComplex (p : Precision) (c : Complex) : Value :=
  complex p (.ofDouble p c.re) (.ofDouble p c.im)

/-- The value of kind `kind` equal to `z`; nothing unless `kind` is an integer kind that holds
it. -/
def ofInt? (kind : Kind) (z : Int) : Option Value :=
  match kind with
  | .integer k => integer? k z
  | _ => none

/-- The float of kind `kind` nearest to `x`; nothing unless `kind` is a float kind. -/
def ofDouble? (kind : Kind) (x : Double) : Option Value :=
  match kind with
  | .float p => some (rounded p x)
  | _ => none

/-- The complex value of kind `kind` nearest to `c`; nothing unless `kind` is a complex kind. -/
def ofComplex? (kind : Kind) (c : Complex) : Option Value :=
  match kind with
  | .complex p => some (roundedComplex p c)
  | _ => none

/-! ## Payloads -/

/-- The payload of an integer. -/
def toInt? : Value → Option Int
  | integer _ z _ => some z
  | _ => none

/-- The payload of an integer or a float, in double precision. -/
def toDouble? : Value → Option Double
  | integer _ z _ => some (.ofInt z)
  | float _ x => some x.toDouble
  | _ => none

/-- The payload of any number, as a complex number. -/
def toComplex? : Value → Option Complex
  | integer _ z _ => some ⟨.ofInt z, .zero _⟩
  | float _ x => some ⟨x.toDouble, .zero _⟩
  | complex _ re im => some ⟨re.toDouble, im.toDouble⟩
  | _ => none

def toBool? : Value → Option Bool
  | bool b => some b
  | _ => none

def toString? : Value → Option String
  | string s => some s
  | _ => none

/-! ## Comparison -/

/-- Equality of kind and payload, floats compared as numbers. -/
def eqv : Value → Value → Bool
  | bool a, bool b => a == b
  | integer k x _, integer l y _ => k == l && x == y
  | float .single x, float .single y => x.eqv y
  | float .double x, float .double y => x.eqv y
  | complex .single a b, complex .single c d => a.eqv c && b.eqv d
  | complex .double a b, complex .double c d => a.eqv c && b.eqv d
  | string s, string t => s == t
  | _, _ => false

end Value

end Lowering
