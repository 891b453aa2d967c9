import Lowering.Diagnostic
import Lowering.Registry

/-!
# Constants

A constant is a value with a kind, which may still be open. The value of an open constant is kept in
its widest form: an integer as `int`, or as `uint64` if it is greater than every `int`; a float and
a complex number in double precision. `holds` is that rule, and `Const.make` enforces it.

A constant may own a reservation: a place in a backend's output that is filled once the constant is
bound to a type.
-/

namespace Lowering

/-- A constant, bound to a kind or still open. -/
structure Const where
  value : Value
  kind : Kind
  reservation : Option Reservation := none
  deriving DecidableEq

namespace Const

/-! ## Making constants -/

/-- Whether a constant of kind `k` may hold `v`: a value of that kind, or of the widest form for an
open kind. -/
def holds (k : Kind) (v : Value) : Bool :=
  match k with
  | .untypedInt => v.kind == .integer .int || v.kind == .integer .uint64
  | .untypedFloat => v.kind == .float .double
  | .untypedComplex => v.kind == .complex .double
  | k => v.kind == k

/-- The constant `v` of kind `k`. -/
def make (v : Value) (k : Kind) : Except Fault Const :=
  if holds k v then .ok { value := v, kind := k } else .error (.storedAs v k)

/-- An untyped integer. -/
def int (n : Int64) : Const :=
  { value := .integer .int n.toInt ⟨n.le_toInt, Int.le_sub_one_of_lt n.toInt_lt⟩
    kind := .untypedInt }

/-- An untyped integer given without a sign. -/
def uint (n : UInt64) : Const :=
  if h : IntKind.Fits .int n.toNat then
    { value := .integer .int n.toNat h, kind := .untypedInt }
  else
    { value := .integer .uint64 n.toNat
        ⟨Int.natCast_nonneg _, Int.le_sub_one_of_lt (Int.ofNat_lt.mpr n.toNat_lt)⟩
      kind := .untypedInt }

/-- An untyped float. -/
def float (x : Double) : Const := { value := .float .double x, kind := .untypedFloat }

/-- An untyped complex number. -/
def complex (re im : Double) : Const :=
  { value := .complex .double re im, kind := .untypedComplex }

/-- A constant bound to the kind of its value. -/
def typed (v : Value) : Const := { value := v, kind := v.kind }

/-- A constant of a native package. -/
def ofNative (c : NativeConst) : Except Fault Const := make c.value c.kind

/-! ## Kinds and types -/

def isBound (c : Const) : Bool := !c.kind.isUntyped

def isReserved (c : Const) : Bool := c.reservation.isSome

/-- The type of a bound constant. -/
def ty? (c : Const) : Option Ty := if c.isBound then Ty.ofKind? c.kind else none

/-- The kind that the constant takes if nothing else decides. -/
def defaultKind (c : Const) : Kind :=
  match c.kind with
  | .untypedInt => if c.value.kind = .integer .uint64 then .integer .uint else .integer .int
  | .untypedFloat => .float .double
  | .untypedComplex => .complex .double
  | k => k

/-- The type that a kind names. -/
def typeOfKind (k : Kind) : Except Fault Ty :=
  (Ty.ofKind? k).elim (.error (.noBasicType k)) .ok

/-- The type that the constant takes if nothing else decides. -/
def defaultType (c : Const) : Except Fault Ty := typeOfKind c.defaultKind

end Const

end Lowering
