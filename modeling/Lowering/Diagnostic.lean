import Lowering.Evaluate
import Lowering.Value.Convert

/-!
# Compile errors

Mistakes in the program being compiled. They are collected, not raised: `Diagnostics` keeps the
errors of one compilation unit in the order in which they were found. Every error has a message and
a code, and some have advice.
-/

namespace Lowering

/-- A mistake in the compiled program. -/
inductive CompileError
  | invalidOperand (op : Operator) (k : Kind)
  | typeMismatch (expected found : String)
  | mismatchedElements
  | multipleValues (count : Nat)
  | notAValue
  | overflow (value ty : String)
  | truncated (value ty : String)
  | invalidConversion (value ty : String)
  | invalidShift
  | divisionByZero
  deriving DecidableEq

namespace CompileError

def message : CompileError → String
  | invalidOperand op k =>
    "invalid operation: operator " ++ op.text ++ " not defined on " ++ k.name
  | typeMismatch expected found =>
    "cannot use " ++ found ++ " value as " ++ expected ++ " value"
  | mismatchedElements =>
    "mismatched types in composite literal: elements have no common type"
  | multipleValues count =>
    "multiple-value (" ++ toString count ++ " values) in single-value context"
  | notAValue => "expression is not a value"
  | overflow value ty => "constant " ++ value ++ " overflows " ++ ty
  | truncated value ty => "constant " ++ value ++ " truncated to " ++ ty
  | invalidConversion value ty => "cannot convert constant " ++ value ++ " to " ++ ty
  | invalidShift => "invalid shift count"
  | divisionByZero => "division by zero"

/-- The code under which an error is documented. -/
def code : CompileError → String
  | invalidOperand .. => "cl::invalid_operand"
  | typeMismatch .. => "cl::type_mismatch"
  | mismatchedElements => "cl::mismatched_elements"
  | multipleValues _ => "cl::multiple_values"
  | notAValue => "cl::not_a_value"
  | overflow .. => "cl::overflow"
  | truncated .. => "cl::truncated"
  | invalidConversion .. => "cl::invalid_conversion"
  | invalidShift => "cl::invalid_shift"
  | divisionByZero => "cl::division_by_zero"

/-- Advice on how to mend the error. -/
def help? : CompileError → Option String
  | typeMismatch expected _ => some ("add an explicit conversion to " ++ expected)
  | mismatchedElements =>
    some "convert the elements to one type or declare the literal's element type"
  | notAValue => some "packages and types cannot be used as values"
  | _ => none

/-- The error of a constant that a type cannot represent. -/
def ofRepr (e : ReprError) (v : Value) (t : Ty) : CompileError :=
  match e with
  | .overflow => overflow v.literal t.text
  | .truncated => truncated v.literal t.text
  | .incompatible => invalidConversion v.literal t.text

/-- The error of an operation on constants of kind `k`. -/
def ofEval (e : EvalError) (op : Operator) (k : Kind) : CompileError :=
  match e with
  | .divisionByZero => divisionByZero
  | .invalidShift => invalidShift
  | .overflow => overflow ("result of `" ++ op.text ++ "`") k.name

end CompileError

/-- The errors found so far, the first one first. -/
structure Diagnostics where
  errors : Array CompileError := #[]

namespace Diagnostics

def emit (d : Diagnostics) (e : CompileError) : Diagnostics := ⟨d.errors.push e⟩

/-- Keeps the error of a result; gives the value of a success. -/
def check {α : Type} (d : Diagnostics) : Except CompileError α → Option α × Diagnostics
  | .ok a => (some a, d)
  | .error e => (none, d.emit e)

def size (d : Diagnostics) : Nat := d.errors.size

def isEmpty (d : Diagnostics) : Bool := d.errors.isEmpty

/-- Succeeds if there was no error, and otherwise gives all of them. -/
def finish (d : Diagnostics) : Except (List CompileError) Unit :=
  if d.isEmpty then .ok () else .error d.errors.toList

end Diagnostics

end Lowering
