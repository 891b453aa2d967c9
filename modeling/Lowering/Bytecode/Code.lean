import Lowering.Bytecode.Op
import Lowering.Entity

/-!
# Finished bytecode

The instructions of a compilation unit with its function table and the source positions of its
statements.
-/

namespace Lowering.Bytecode

/-- A function of the code: its body is `entry ≤ ip < stop`. -/
structure FuncEntry where
  id : Nat
  name : String
  entry : Nat
  stop : Nat
  numIn : Nat
  numOut : Nat
  variadic : Bool
  numVars : Nat
  deriving DecidableEq

/-- A statement of the source: its instructions are `start ≤ ip < stop`. -/
structure StmtSpan where
  start : Nat
  stop : Nat
  pos : SourcePos
  deriving DecidableEq

namespace StmtSpan

def contains (s : StmtSpan) (ip : Nat) : Bool := s.start ≤ ip && ip < s.stop

def size (s : StmtSpan) : Nat := s.stop - s.start

end StmtSpan

/-- Resolved bytecode. `numVars` counts the variables of the top level. -/
structure Code where
  ops : List Op
  funcs : List FuncEntry
  spans : List StmtSpan
  numVars : Nat
  deriving DecidableEq

namespace Code

/-- The function with a given number. -/
def func? (c : Code) (id : Nat) : Option FuncEntry := c.funcs.find? (·.id == id)

/-- The first of the shortest spans. -/
def shortest : List StmtSpan → Option StmtSpan
  | [] => none
  | s :: rest =>
    match shortest rest with
    | none => some s
    | some t => if s.size ≤ t.size then some s else some t

/-- The position of the innermost statement that contains an instruction. -/
def posAt (c : Code) (ip : Nat) : Option SourcePos :=
  (shortest (c.spans.filter (·.contains ip))).map (·.pos)

/-- Equality in which floats are compared as numbers. -/
def eqv (a b : Code) : Bool :=
  a.ops.length == b.ops.length && (a.ops.zip b.ops).all (fun p => p.1.eqv p.2) &&
    a.funcs == b.funcs && a.spans == b.spans && a.numVars == b.numVars

end Code

end Lowering.Bytecode
