import Lowering.Kind

/-!
# Operators

The operators of expressions, split by the number of their operands, and the operators that work on
an address. Each has its spelling, and each expression operator has the kinds it accepts, the kind
of its result and its binding strength in source text.
-/

namespace Lowering

/-! ## Expression operators -/

/-- Operators with one operand. -/
inductive UnaryOp
  | neg | not | bitNot
  deriving DecidableEq, Repr

/-- Operators with two operands. -/
inductive BinaryOp
  | add | sub | mul | quo | mod
  | and | or | xor | andNot | lsh | rsh
  | lt | le | gt | ge | eq | ne
  | lAnd | lOr
  deriving DecidableEq, Repr

/-- An expression operator. -/
inductive Operator
  | unary (op : UnaryOp)
  | binary (op : BinaryOp)
  deriving DecidableEq, Repr

namespace UnaryOp

def text : UnaryOp → String
  | neg => "-"
  | not => "!"
  | bitNot => "^"

/-- Whether the operator takes an operand of kind `k`. -/
def accepts (op : UnaryOp) (k : Kind) : Bool :=
  match op with
  | neg => k.isNumber
  | not => k == .bool
  | bitNot => k.isInteger

/-- The kind of the result for an operand of kind `k`. -/
def resultKind (op : UnaryOp) (k : Kind) : Kind :=
  match op with
  | not => .bool
  | neg | bitNot => k

end UnaryOp

namespace BinaryOp

def text : BinaryOp → String
  | add => "+" | sub => "-" | mul => "*" | quo => "/" | mod => "%"
  | and => "&" | or => "|" | xor => "^" | andNot => "&^" | lsh => "<<" | rsh => ">>"
  | lt => "<" | le => "<=" | gt => ">" | ge => ">=" | eq => "==" | ne => "!="
  | lAnd => "&&" | lOr => "||"

/-- Shifts take a count of any integer kind on the right. -/
def isShift : BinaryOp → Bool
  | lsh | rsh => true
  | _ => false

/-- Comparisons and logical connectives yield a truth value. -/
def yieldsBool : BinaryOp → Bool
  | lt | le | gt | ge | eq | ne | lAnd | lOr => true
  | _ => false

/-- Whether the operator takes a left operand of kind `k`. -/
def accepts (op : BinaryOp) (k : Kind) : Bool :=
  match op with
  | add => k.isNumber || k == .string
  | sub | mul | quo => k.isNumber
  | mod | and | or | xor | andNot | lsh | rsh => k.isInteger
  | lt | le | gt | ge => k.isReal || k == .string
  | eq | ne => k.isNumber || k == .string || k == .bool
  | lAnd | lOr => k == .bool

/-- The kind of the result for a left operand of kind `k`. -/
def resultKind (op : BinaryOp) (k : Kind) : Kind := if op.yieldsBool then .bool else k

/-- Binding strength in source text, from 1 for the loosest to 5. -/
def precedence : BinaryOp → Nat
  | lOr => 1
  | lAnd => 2
  | lt | le | gt | ge | eq | ne => 3
  | add | sub | or | xor => 4
  | mul | quo | mod | and | andNot | lsh | rsh => 5

end BinaryOp

namespace Operator

def text : Operator → String
  | unary op => op.text
  | binary op => op.text

/-- The number of operands. -/
def arity : Operator → Nat
  | unary _ => 1
  | binary _ => 2

def isUnary : Operator → Bool
  | unary _ => true
  | binary _ => false

def isShift : Operator → Bool
  | unary _ => false
  | binary op => op.isShift

def yieldsBool : Operator → Bool
  | unary op => op == .not
  | binary op => op.yieldsBool

/-- Whether the operator takes a first operand of kind `k`. -/
def accepts (op : Operator) (k : Kind) : Bool :=
  match op with
  | unary op => op.accepts k
  | binary op => op.accepts k

def resultKind (op : Operator) (k : Kind) : Kind :=
  match op with
  | unary op => op.resultKind k
  | binary op => op.resultKind k

/-- The kinds of the first operand, as a mask. -/
def firstMask (op : Operator) : Nat := Kind.mask op.accepts

/-- The mark of a second operand that has the kind of the first. -/
def sameAsFirst : Nat := 2 ^ 63

/-- The kinds of the second operand: none for unary operators, the integers for shifts, and the
mark `sameAsFirst` otherwise. -/
def secondMask : Operator → Nat
  | unary _ => 0
  | binary op => if op.isShift then Kind.mask Kind.isInteger else sameAsFirst

/-- Binding strength of a unary operator in source text. -/
def unaryPrecedence : Nat := 6

/-- Binding strength in source text. -/
def precedence : Operator → Nat
  | unary _ => unaryPrecedence
  | binary op => op.precedence

/-- Every operator, in the order of their numbers. -/
def all : List Operator :=
  [.binary .add, .binary .sub, .binary .mul, .binary .quo, .binary .mod,
   .binary .and, .binary .or, .binary .xor, .binary .andNot, .binary .lsh, .binary .rsh,
   .binary .lt, .binary .le, .binary .gt, .binary .ge, .binary .eq, .binary .ne,
   .binary .lAnd, .binary .lOr, .unary .neg, .unary .not, .unary .bitNot]

end Operator

/-! ## Operators on an address -/

/-- Operators whose operand is the address of a variable. -/
inductive AddressOp
  | value
  | assign | addAssign | subAssign | mulAssign | quoAssign | modAssign
  | andAssign | orAssign | xorAssign | andNotAssign | lshAssign | rshAssign
  | inc | dec
  deriving DecidableEq, Repr

namespace AddressOp

/-- Every address operator, in the order of their numbers. -/
def all : List AddressOp :=
  [value, assign, addAssign, subAssign, mulAssign, quoAssign, modAssign,
   andAssign, orAssign, xorAssign, andNotAssign, lshAssign, rshAssign, inc, dec]

def text : AddressOp → String
  | value => "*"
  | assign => "=" | addAssign => "+=" | subAssign => "-=" | mulAssign => "*="
  | quoAssign => "/=" | modAssign => "%="
  | andAssign => "&=" | orAssign => "|=" | xorAssign => "^=" | andNotAssign => "&^="
  | lshAssign => "<<=" | rshAssign => ">>="
  | inc => "++" | dec => "--"

/-- The number of operands beside the address. -/
def arity : AddressOp → Nat
  | value | inc | dec => 0
  | _ => 1

/-- Only reading the variable leaves a value. -/
def producesValue : AddressOp → Bool
  | value => true
  | _ => false

end AddressOp

/-! ## Built-in functions -/

/-- Functions that are part of the language. -/
inductive Builtin
  | len | cap | copy | delete
  deriving DecidableEq, Repr

namespace Builtin

/-- Every built-in function, in the order of their numbers. -/
def all : List Builtin := [len, cap, copy, delete]

def name : Builtin → String
  | len => "len"
  | cap => "cap"
  | copy => "copy"
  | delete => "delete"

def arity : Builtin → Nat
  | len | cap => 1
  | copy | delete => 2

def producesValue : Builtin → Bool
  | delete => false
  | len | cap | copy => true

end Builtin

end Lowering
