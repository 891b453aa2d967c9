import Lowering.Ieee.Binary
import Lowering.Integer.Kind

/-!
# Kinds

A kind says how a value is represented. The kinds are numbered; `bit` turns the number into a mask
and `rank` orders them. Three kinds belong to constants whose representation is still open: they
rank above all others and among themselves from integer to complex, so that the greater of two open
kinds is the one that both sides can be promoted to.
-/

namespace Lowering

/-- The representation of a value, or one of the open kinds of untyped constants. -/
inductive Kind
  | invalid
  | bool
  | integer (k : IntKind)
  | float (p : Precision)
  | complex (p : Precision)
  | array | chan | func | interface | map | ptr | slice | string | struct | unsafePointer
  | untypedInt | untypedFloat | untypedComplex
  deriving DecidableEq, Repr

namespace Kind

/-- Every kind, in the order of their numbers. -/
def all : List Kind :=
  [invalid, bool] ++ IntKind.all.map integer ++
  [float .single, float .double, complex .single, complex .double,
   array, chan, func, interface, map, ptr, slice, string, struct, unsafePointer,
   untypedInt, untypedFloat, untypedComplex]

/-- The number of the kind: its place in `all`. -/
def rank : Kind → Nat
  | invalid => 0
  | bool => 1
  | integer .int => 2
  | integer .int8 => 3
  | integer .int16 => 4
  | integer .int32 => 5
  | integer .int64 => 6
  | integer .uint => 7
  | integer .uint8 => 8
  | integer .uint16 => 9
  | integer .uint32 => 10
  | integer .uint64 => 11
  | integer .uintptr => 12
  | float .single => 13
  | float .double => 14
  | complex .single => 15
  | complex .double => 16
  | array => 17
  | chan => 18
  | func => 19
  | interface => 20
  | map => 21
  | ptr => 22
  | slice => 23
  | string => 24
  | struct => 25
  | unsafePointer => 26
  | untypedInt => 27
  | untypedFloat => 28
  | untypedComplex => 29

/-- The kind with a given number. -/
def ofRank? (n : Nat) : Option Kind := all[n]?

theorem ofRank?_rank (k : Kind) : ofRank? k.rank = some k := by
  cases k with
  | integer k => cases k <;> rfl
  | float p => cases p <;> rfl
  | complex p => cases p <;> rfl
  | _ => rfl

/-- The single bit that stands for the kind in a mask. -/
def bit (k : Kind) : Nat := 2 ^ k.rank

/-- The mask of the kinds that satisfy a test. -/
def mask (accepts : Kind → Bool) : Nat := (all.filter accepts).foldr (bit · ||| ·) 0

/-- The kind of higher rank. -/
def max (a b : Kind) : Kind := if a.rank ≤ b.rank then b else a

/-! ## Classes -/

/-- Whether the kind is still open. -/
def isUntyped : Kind → Bool
  | untypedInt | untypedFloat | untypedComplex => true
  | _ => false

/-- The kind that stands in for an open one when operators are chosen. -/
def concrete : Kind → Kind
  | untypedInt => integer .int64
  | untypedFloat => float .double
  | untypedComplex => complex .double
  | k => k

def isSigned : Kind → Bool
  | integer k => k.signed
  | _ => false

def isUnsigned : Kind → Bool
  | integer k => !k.signed
  | _ => false

def isInteger : Kind → Bool
  | integer _ => true
  | _ => false

def isFloat : Kind → Bool
  | float _ => true
  | _ => false

def isComplex : Kind → Bool
  | complex _ => true
  | _ => false

/-- Integers and floats: the kinds with an order. -/
def isReal (k : Kind) : Bool := k.isInteger || k.isFloat

def isNumber (k : Kind) : Bool := k.isReal || k.isComplex

/-- The kinds that name a type by themselves. -/
def isBasic : Kind → Bool
  | bool | string | unsafePointer => true
  | k => k.isNumber

/-- The name of the kind. -/
def name : Kind → String
  | invalid => "invalid"
  | bool => "bool"
  | integer k => k.name
  | float .single => "float32"
  | float .double => "float64"
  | complex .single => "complex64"
  | complex .double => "complex128"
  | array => "array"
  | chan => "chan"
  | func => "func"
  | interface => "interface"
  | map => "map"
  | ptr => "ptr"
  | slice => "slice"
  | string => "string"
  | struct => "struct"
  | unsafePointer => "unsafe.Pointer"
  | untypedInt => "untyped int"
  | untypedFloat => "untyped float"
  | untypedComplex => "untyped complex"

/-- The kind with a given name. -/
def ofName? (s : String) : Option Kind := all.find? (·.name == s)

end Kind

end Lowering
