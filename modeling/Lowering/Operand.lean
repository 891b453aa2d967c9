import Lowering.Constant

/-!
# Operands

What an expression stands for while it is compiled: a value with a fixed type, a constant, a
function, the results of a call, or something that is no value at all.
-/

namespace Lowering

/-- An entity that may stand in an expression but is not a value. -/
inductive NonValue
  | package (path : String)
  | type (t : Ty)
  /-- A built-in function before it is applied. -/
  | builtin (name : String)
  deriving DecidableEq

def NonValue.text : NonValue → String
  | package path => "package " ++ path
  | type t => "type " ++ t.text
  | builtin name => "builtin " ++ name

/-- A reference to a native function or method. -/
structure NativeFunc where
  ty : Ty
  address : Nat
  kind : SymbolKind
  isMethod : Bool
  deriving DecidableEq

/-- Looks up the native function at an address. A variable is none. -/
def NativeFunc.find (r : Registry) (address : Nat) (kind : SymbolKind) (isMethod : Bool) :
    Except Fault NativeFunc :=
  if kind = .var then .error (.variableAsFunction address)
  else
    match r.native kind address with
    | .ok n => .ok ⟨n.ty, address, kind, isMethod⟩
    | .error f => .error f

/-- The meaning of an expression at compile time. -/
inductive Operand
  | value (t : Ty)
  | nonValue (n : NonValue)
  /-- The results of a call of a function of type `tfn`, if there is not exactly one. -/
  | results (tfn : Ty)
  | const (c : Const)
  | func (f : Func)
  | native (f : NativeFunc)
  deriving DecidableEq

namespace Operand

/-- The results of calling a function of type `tfn`: a single one is a value by itself. -/
def ofCall (tfn : Ty) : Operand :=
  match tfn.results with
  | [t] => value t
  | _ => results tfn

/-- The number of values. -/
def arity : Operand → Nat
  | nonValue _ => 0
  | results tfn => tfn.results.length
  | _ => 1

def kind : Operand → Except Fault Kind
  | value t => .ok t.kind
  | nonValue _ => .ok .invalid
  | results tfn => .error (.kindOfResults tfn.results.length)
  | const c => .ok c.kind
  | func _ | native _ => .ok .func

/-- The type of a single value; none for an open constant. -/
def ty? : Operand → Option Ty
  | value t => some t
  | nonValue _ | results _ => none
  | const c => c.ty?
  | func f => some f.ty
  | native f => some f.ty

/-- How a fault names an operand without a type. -/
def description : Operand → String
  | nonValue n => "non-value " ++ n.text
  | results tfn => toString tfn.results.length ++ "-value call result"
  | const c => c.kind.name ++ " constant"
  | _ => "value"

/-- The type of an operand that must have one. -/
def ty (o : Operand) : Except Fault Ty :=
  o.ty?.elim (.error (.typeRequested o.description)) .ok

/-- The type after binding; an open constant takes its default. -/
def boundType : Operand → Except Fault Ty
  | const c => c.defaultType
  | o => o.ty

/-- Component `i` of the results of a call; any other operand is its own component. -/
def component (o : Operand) (i : Nat) : Except Fault Operand :=
  match o with
  | results tfn =>
    tfn.results[i]?.elim (.error (.resultRequested i tfn.results.length)) (.ok <| value ·)
  | o => .ok o

/-- Whether the operand is a single value of type `bool`. A named truth type is another type. -/
def isBool (o : Operand) : Bool := o.arity == 1 && o.ty? == some .bool

end Operand

end Lowering
