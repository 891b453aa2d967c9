import Lowering.Constant

/-!
# Constant folding

Applying operators to constants. A bound operand decides the kind of the result; of two open
operands the one of higher rank does; a shift takes the kind of its left operand. Operands are
brought to one concrete kind exactly, computed there, and the result stays open if both operands
were.

Open integers are computed as `int`, or as `uint64` if one of them needs that.
-/

namespace Lowering.Const

/-- Whether an open integer is greater than every `int`. -/
def isWide (c : Const) : Bool := c.kind == .untypedInt && c.value.kind == .integer .uint64

/-- The concrete kind in which operands governed by `k` are computed. -/
def foldKind (k : Kind) (wide : Bool) : Kind :=
  match k with
  | .untypedInt => if wide then .integer .uint64 else .integer .int
  | .untypedFloat => .float .double
  | .untypedComplex => .complex .double
  | k => k

/-- The value in kind `k`, exactly. -/
def toKind (v : Value) (k : Kind) : Except (Failure CompileError) Value :=
  match v.represent k with
  | .ok u => .ok u
  | .error e =>
    match typeOfKind k with
    | .ok t => .error (.error (.ofRepr e v t))
    | .error f => .error (.fault f)

/-- Puts an open integer back into its widest form. -/
def normalize (k : Kind) (v : Value) : Value :=
  match k, v with
  | .untypedInt, .integer .uint64 z _ => (Value.integer? .int z).getD v
  | _, v => v

/-- The constant of a folded value. -/
def folded (op : Operator) (k : Kind) (v : Value) : Except (Failure CompileError) Const :=
  match make (normalize (op.resultKind k) v) (op.resultKind k) with
  | .ok c => .ok c
  | .error f => .error (.fault f)

/-- Computes with operands that have been brought to kind `real`; `k` governs the result. -/
def compute (op : Operator) (k real : Kind) (args : List Value) :
    Except (Failure CompileError) Const :=
  match Evaluate.apply real op args with
  | .ok v => folded op k v
  | .error (.error e) => .error (.error (.ofEval e op k))
  | .error (.fault f) => .error (.fault f)

/-- Operands must not wait for their place to be filled. -/
def checkUnreserved (unary : Bool) (c : Const) : Except (Failure CompileError) Unit :=
  if c.isReserved then .error (.fault (.pendingOperand unary c.value)) else .ok ()

/-- Folds a unary operator. -/
def foldUnary (op : UnaryOp) (x : Const) : Except (Failure CompileError) Const := do
  checkUnreserved true x
  if !op.accepts x.kind.concrete then
    throw (.error (.invalidOperand (.unary op) x.kind))
  let real := foldKind x.kind x.isWide
  let vx ← toKind x.value real
  compute (.unary op) x.kind real [vx]

/-- The kind that governs an operation on `x` and `y`. -/
def governingKind (op : BinaryOp) (x y : Const) : Except CompileError Kind :=
  if op.isShift then .ok x.kind
  else
    match x.isBound, y.isBound with
    | true, true =>
      if x.kind = y.kind then .ok x.kind
      else .error (.typeMismatch x.kind.name y.kind.name)
    | true, false => .ok x.kind
    | false, true => .ok y.kind
    | false, false => .ok (x.kind.max y.kind)

/-- The count of a shift. It keeps its own integer kind; an open count must be integral. -/
def shiftCount (op : BinaryOp) (y : Const) : Except (Failure CompileError) Value :=
  if y.isBound then
    if y.kind.isInteger then .ok y.value
    else .error (.error (.invalidOperand (.binary op) y.kind))
  else if y.value.kind = .integer .int ∨ y.value.kind = .integer .uint64 then .ok y.value
  else toKind y.value (.integer .int64)

/-- Folds a binary operator. Of two operands that do not fit, the right one is reported. -/
def foldBinary (op : BinaryOp) (x y : Const) : Except (Failure CompileError) Const := do
  checkUnreserved false x
  checkUnreserved false y
  let k ← (governingKind op x y).mapError .error
  if !op.accepts k.concrete then
    throw (.error (.invalidOperand (.binary op) k))
  if op.isShift then
    let real := foldKind k x.isWide
    let vy ← shiftCount op y
    let vx ← toKind x.value real
    compute (.binary op) k real [vx, vy]
  else
    let real := foldKind k (x.isWide || y.isWide)
    let vy ← toKind y.value real
    let vx ← toKind x.value real
    compute (.binary op) k real [vx, vy]

/-- Folds an operator that must be unary. -/
def unary (op : Operator) (x : Const) : Except (Failure CompileError) Const :=
  match op with
  | .unary op => foldUnary op x
  | .binary op => .error (.fault (.notUnary op))

/-- Folds an operator that must be binary. -/
def binary (op : Operator) (x y : Const) : Except (Failure CompileError) Const :=
  match op with
  | .unary op => .error (.fault (.notBinary op))
  | .binary op => foldBinary op x y

end Lowering.Const
