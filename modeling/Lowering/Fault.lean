import Lowering.Entity
import Lowering.Operator
import Lowering.Ty.Text
import Lowering.Value.Text

/-!
# Faults

A fault is a call that breaks the rules of this library: the program that makes it is wrong, not the
source text it compiles. Every cause is a constructor; `Fault.message` is the only place that words
them. `Failure` joins faults with the errors that correct callers have to expect.
-/

namespace Lowering

/-- What a builder was asked to do after it had been resolved. -/
inductive Activity
  | emission | label | defineFunc | endFunc | defineVar | startStmt | endStmt
  | reserve | fill | resolve
  deriving DecidableEq

def Activity.text : Activity → String
  | emission => "emission"
  | label => "label"
  | defineFunc => "define_func"
  | endFunc => "end_func"
  | defineVar => "define_var"
  | startStmt => "start_stmt"
  | endStmt => "end_stmt"
  | reserve => "reserve"
  | fill => "resolving a reserved position"
  | resolve => "resolve"

/-- A broken calling rule. -/
inductive Fault
  -- Evaluation
  /-- An operator was applied to `got` operands. -/
  | operandCount (op : Operator) (got : Nat)
  /-- An operand has another kind than it was passed as. -/
  | operandKind (found expected : Kind)
  /-- An operator was applied to a kind that it does not accept. -/
  | operatorOnKind (op : Operator) (k : Kind)
  -- Native packages
  | notVariadic (name : String) (t : Ty)
  | noNative (what : SymbolKind) (address : Nat)
  -- Constants
  | storedAs (v : Value) (k : Kind)
  | reservedTwice (v : Value)
  | noBasicType (k : Kind)
  | notUnary (op : BinaryOp)
  | notBinary (op : UnaryOp)
  /-- A constant with a pending reservation was used as an operand; `unary` says of which. -/
  | pendingOperand (unary : Bool) (v : Value)
  -- Operands and element types
  | zeroStep
  | badRange (base max count : Nat)
  | kindOfResults (count : Nat)
  | typeRequested (description : String)
  | resultRequested (i count : Nat)
  | variableAsFunction (address : Nat)
  -- Both backends
  | afterResolve (what : Activity)
  | variableTwice (v : Var)
  | forTwice (id : Nat)
  | filterOutside (id : Nat)
  | endForUnstarted (id : Nat)
  | endComprehension (id : Nat)
  | functionTwice (f : Func)
  | endFuncMismatch (f : Func)
  | foreignReservation (r : Reservation) (builder : Nat)
  | filledTwice (position : Nat)
  | forOpen (id : Nat)
  | comprehensionOpen (id : Nat)
  -- Bytecode
  | variableUndefined (v : Var)
  | labelTwice (l : Label)
  | labelUndefined (name : String)
  | unfilled (count first : Nat)
  | functionOpen (id : Nat)
  -- Source text
  | stackUnderflow
  | stackShort (need available : Nat)
  | noSwitchTag
  | argumentIndex (index : Int) (count : Nat)
  | valuesOutsideComprehension
  | unknownStatement (mark : Nat)
  | unknownReservation (position : Nat)
  | slotsUnfilled (count : Nat)
  | slotUnfilled (slot : Nat)
  | someFunctionOpen
  | noElementType (t : Ty)
  /-- A block was closed in a body that has none open. -/
  | blockUnderflow
  deriving DecidableEq

namespace Fault

/-- How a message names a sort of native symbol. -/
def symbolText : SymbolKind → String
  | .func => "function"
  | .variadicFunc => "variadic function"
  | .var => "variable"

/-- The cause in words, without the common beginning of messages. -/
def cause : Fault → String
  | operandCount op got =>
    "call_builtin_op: operator `" ++ op.text ++ "` expects " ++ toString op.arity ++
      " operand(s), got " ++ toString got
  | operandKind found expected =>
    "call_builtin_op: operand of kind " ++ found.name ++ " passed as " ++ expected.name
  | operatorOnKind op k => "call_builtin_op: operator `" ++ op.text ++ "` on " ++ k.name
  | notVariadic name t => "funcv " ++ name ++ ": " ++ t.text ++ " is not variadic"
  | noNative what address =>
    "no native " ++ symbolText what ++ " at address " ++ toString address
  | storedAs v k => "constant " ++ v.describe ++ " stored as " ++ k.name
  | reservedTwice v => "constant " ++ v.literal ++ " reserved twice"
  | noBasicType k => "no basic type for kind " ++ k.name
  | notUnary op => "unary_op: `" ++ op.text ++ "` is a binary operator"
  | notBinary op => "binary_op: `" ++ op.text ++ "` is a unary operator"
  | pendingOperand unary v =>
    (if unary then "unary_op" else "binary_op") ++ ": operand " ++ v.literal ++
      " has a pending reservation"
  | zeroStep => "bound_element_type: zero step"
  | badRange base max count =>
    "bound_element_type: range " ++ toString base ++ ".." ++ toString max ++ " of " ++
      toString count ++ " elements"
  | kindOfResults count => "kind of a " ++ toString count ++ "-value call result requested"
  | typeRequested description => "type of " ++ description ++ " requested"
  | resultRequested i count =>
    "result " ++ toString i ++ " of a " ++ toString count ++ "-value call requested"
  | variableAsFunction address =>
    "GoFunc::new: symbol " ++ toString address ++ " is a variable"
  | afterResolve what => what.text ++ " after resolve"
  | variableTwice v => "variable `" ++ v.name ++ "` defined twice"
  | forTwice id => "for phrase " ++ toString id ++ " started twice"
  | filterOutside id => "filter outside for phrase " ++ toString id
  | endForUnstarted id => "end of for phrase " ++ toString id ++ " that was not started"
  | endComprehension id =>
    "end of comprehension " ++ toString id ++ " does not match its start"
  | functionTwice f => "function `" ++ f.name ++ "` defined twice"
  | endFuncMismatch f => "end_func(`" ++ f.name ++ "`) does not match the open function"
  | foreignReservation r builder =>
    "reserved position " ++ toString r.position ++ " of builder " ++ toString r.builder ++
      " resolved on builder " ++ toString builder
  | filledTwice position => "reserved position " ++ toString position ++ " resolved twice"
  | forOpen id => "for phrase " ++ toString id ++ " has no end_for_phrase"
  | comprehensionOpen id => "comprehension " ++ toString id ++ " has no end_comprehension"
  | variableUndefined v => "variable `" ++ v.name ++ "` used before define_var"
  | labelTwice l => "label `" ++ l.name ++ "` defined twice"
  | labelUndefined name => "label `" ++ name ++ "` used but never defined"
  | unfilled count first =>
    toString count ++ " reserved position(s) unresolved, first at " ++ toString first
  | functionOpen id => "function Some(" ++ toString id ++ ") has no end_func"
  | stackUnderflow => "expression stack underflow"
  | stackShort need available =>
    "need " ++ toString need ++ " expressions, stack has " ++ toString available
  | noSwitchTag => "case without a switch tag"
  | argumentIndex index count =>
    "argument index " ++ toString index ++ " of a " ++ toString count ++ "-parameter function"
  | valuesOutsideComprehension => "for phrase leaves values outside a comprehension"
  | unknownStatement mark => "end_stmt for unknown statement " ++ toString mark
  | unknownReservation position => "unknown reserved position " ++ toString position
  | slotsUnfilled count => toString count ++ " reserved position(s) unresolved"
  | slotUnfilled slot =>
    "reserved slot " ++ toString slot ++ " rendered before it was filled"
  | someFunctionOpen => "function has no end_func"
  | noElementType t => "type " ++ t.text ++ " has no element type"
  | blockUnderflow => "attempt to subtract with overflow"

/-- The message of a fault. Counting below zero is the one that has not been foreseen. -/
def message (f : Fault) : String :=
  if f = blockUnderflow then f.cause else "internal compiler error: " ++ f.cause

end Fault

/-- Why an operation gave no result: an error that its callers expect, or a fault. -/
inductive Failure (ε : Type)
  | error (e : ε)
  | fault (f : Fault)

end Lowering
