import Lowering.Constant.Fold

/-!
# Constant expressions

Trees of operators over constants. `eval` folds a tree from left to right, operands first;
`trace` also shows every constant on the way, down to the first error.
-/

namespace Lowering

/-- How a constant comes into an expression. -/
inductive Literal
  | int (n : Int64)
  | uint (n : UInt64)
  | float (x : Double)
  | complex (re im : Double)
  | typed (v : Value)
  /-- A value with a kind of the caller's choice, as native packages give it. -/
  | stored (v : Value) (k : Kind)

/-- The constant of a literal. Only `stored` can fail. -/
def Literal.const : Literal → Except Fault Const
  | int n => .ok (.int n)
  | uint n => .ok (.uint n)
  | float x => .ok (.float x)
  | complex re im => .ok (.complex re im)
  | typed v => .ok (.typed v)
  | stored v k => Const.make v k

/-- A tree of operators over literals. -/
inductive ConstExpr
  | literal (l : Literal)
  | unary (op : Operator) (x : ConstExpr)
  | binary (op : Operator) (x y : ConstExpr)

namespace ConstExpr

/-- The constant that a tree folds to. -/
def eval : ConstExpr → Except (Failure CompileError) Const
  | literal l => l.const.mapError .fault
  | unary op x => do Const.unary op (← x.eval)
  | binary op x y => do
    let a ← x.eval
    let b ← y.eval
    Const.binary op a b

/-- The outcome of a tree together with the constants met before it, the latest first. -/
def traceFrom (seen : List Const) : ConstExpr → List Const × Except (Failure CompileError) Const
  | literal l =>
    match l.const with
    | .ok c => (c :: seen, .ok c)
    | .error f => (seen, .error (.fault f))
  | unary op x =>
    match traceFrom seen x with
    | (seen, .ok a) => record seen (Const.unary op a)
    | failed => failed
  | binary op x y =>
    match traceFrom seen x with
    | (seen, .ok a) =>
      match traceFrom seen y with
      | (seen, .ok b) => record seen (Const.binary op a b)
      | failed => failed
    | failed => failed
where
  /-- Adds a folded constant to those seen. -/
  record (seen : List Const) (result : Except (Failure CompileError) Const) :
      List Const × Except (Failure CompileError) Const :=
    match result with
    | .ok c => (c :: seen, .ok c)
    | .error e => (seen, .error e)

/-- Every constant of the evaluation in order, and how it ends. -/
def trace (e : ConstExpr) : List Const × Except (Failure CompileError) Const :=
  let (seen, outcome) := traceFrom [] e
  (seen.reverse, outcome)

end ConstExpr

end Lowering
