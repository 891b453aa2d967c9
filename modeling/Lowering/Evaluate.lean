import Lowering.Fault
import Lowering.Integer.Word

/-!
# Evaluation of operators

Operators on concrete values. Integers are computed in words and then checked against the range of
their kind. Floats and complex numbers are computed in double precision and rounded once; a result
that becomes infinite is refused, a NaN is not.

`unary` and `binary` are partial: `none` means that the operator has no meaning for such operands,
or that an operation on words that is not checked went wrong. `apply` is the checked entry, which
turns that into a fault.
-/

namespace Lowering

/-- Why an operation on operands of the right kinds has no result. -/
inductive EvalError
  | divisionByZero
  /-- The result is not in the range of the operands' kind. -/
  | overflow
  /-- The shift count is negative. -/
  | invalidShift
  deriving DecidableEq, Repr

namespace Evaluate

/-! ## Integers -/

/-- The value `z` of kind `k`, or an overflow. -/
def checked (k : IntKind) (z : Int) : Except EvalError Value :=
  (Value.integer? k z).elim (.error .overflow) .ok

/-- The value of kind `k` that a checked operation on words results in. -/
def held (k : IntKind) (r : Option Word) : Except EvalError Value :=
  r.elim (.error .overflow) fun w => checked k w.toInt

/-- The count of a shift. Every count that is too great for 32 bits is replaced by the greatest one
that is not. -/
def shiftCount (y : Word) : Except EvalError Nat :=
  if y.toInt < 0 then .error .invalidShift else .ok (min y.toNat (2 ^ 32 - 1))

/-- `x · 2^n`. Shifting back shows whether bits were lost. -/
def shiftLeft (k : IntKind) (x : Word) (n : Nat) : Option (Except EvalError Value) :=
  if x = 0#128 then some (checked k 0)
  else if 127 ≤ n then some (.error .overflow)
  else do
    let r ← x.shiftLeft? n
    let back ← r.shiftRight? n
    return if back ≠ x then .error .overflow else checked k r.toInt

/-- `x / 2^n`, rounded down. A great count leaves only the sign. -/
def shiftRight (k : IntKind) (x : Word) (n : Nat) : Option (Except EvalError Value) :=
  if 127 ≤ n then some (checked k (if x.toInt < 0 then -1 else 0))
  else do return checked k (← x.shiftRight? n).toInt

/-- Flips every bit of `k`'s representation of `x`. -/
def complement (k : IntKind) (x : Word) : Option Word :=
  if k.signed then some (~~~x) else (Word.ofInt k.hi).sub? x

def wordUnary (k : IntKind) (x : Word) : UnaryOp → Option (Except EvalError Value)
  | .neg => some (held k x.neg?)
  | .bitNot => do return checked k (← complement k x).toInt
  | .not => none

/-- Division goes toward zero, and the remainder has the sign of the dividend. -/
def wordBinary (k : IntKind) (x y : Word) : BinaryOp → Option (Except EvalError Value)
  | .add => some (held k (x.add? y))
  | .sub => some (held k (x.sub? y))
  | .mul => some (held k (x.mul? y))
  | .quo => some (if y = 0#128 then .error .divisionByZero else held k (x.quo? y))
  | .mod => some (if y = 0#128 then .error .divisionByZero else held k (x.mod? y))
  | .and => some (checked k (x &&& y).toInt)
  | .or => some (checked k (x ||| y).toInt)
  | .xor => some (checked k (x ^^^ y).toInt)
  | .andNot => some (checked k (x &&& ~~~y).toInt)
  | .lsh =>
    match shiftCount y with
    | .error e => some (.error e)
    | .ok n => shiftLeft k x n
  | .rsh =>
    match shiftCount y with
    | .error e => some (.error e)
    | .ok n => shiftRight k x n
  | .lt => some (.ok (.bool (x.slt y)))
  | .le => some (.ok (.bool (x.sle y)))
  | .gt => some (.ok (.bool (y.slt x)))
  | .ge => some (.ok (.bool (y.sle x)))
  | .eq => some (.ok (.bool (x == y)))
  | .ne => some (.ok (.bool (x != y)))
  | .lAnd | .lOr => none

def integerUnary (k : IntKind) (x : Int) (op : UnaryOp) : Option (Except EvalError Value) :=
  wordUnary k (.ofInt x) op

def integerBinary (k : IntKind) (x y : Int) (op : BinaryOp) : Option (Except EvalError Value) :=
  wordBinary k (.ofInt x) (.ofInt y) op

/-! ## Floats and complex numbers -/

/-- The float of precision `p` nearest to `x`, unless it is infinite. -/
def checkedFloat (p : Precision) (x : Double) : Except EvalError Value :=
  let r := Binary.ofDouble p x
  if r.isInfinite then .error .overflow else .ok (.float p r)

/-- The complex number of precision `p` nearest to `c`, unless a part is infinite. -/
def checkedComplex (p : Precision) (c : Complex) : Except EvalError Value :=
  let re := Binary.ofDouble p c.re
  let im := Binary.ofDouble p c.im
  if re.isInfinite || im.isInfinite then .error .overflow else .ok (.complex p re im)

def floatUnary (p : Precision) (x : Double) : UnaryOp → Option (Except EvalError Value)
  | .neg => some (checkedFloat p x.neg)
  | .not | .bitNot => none

def floatBinary (p : Precision) (x y : Double) : BinaryOp → Option (Except EvalError Value)
  | .add => some (checkedFloat p (x.add y))
  | .sub => some (checkedFloat p (x.sub y))
  | .mul => some (checkedFloat p (x.mul y))
  | .quo => some (if y.isZero then .error .divisionByZero else checkedFloat p (x.div y))
  | .lt => some (.ok (.bool (x.lt y)))
  | .le => some (.ok (.bool (x.le y)))
  | .gt => some (.ok (.bool (y.lt x)))
  | .ge => some (.ok (.bool (y.le x)))
  | .eq => some (.ok (.bool (x.eqv y)))
  | .ne => some (.ok (.bool (!x.eqv y)))
  | _ => none

def complexUnary (p : Precision) (x : Complex) : UnaryOp → Option (Except EvalError Value)
  | .neg => some (checkedComplex p x.neg)
  | .not | .bitNot => none

def complexBinary (p : Precision) (x y : Complex) : BinaryOp → Option (Except EvalError Value)
  | .add => some (checkedComplex p (x.add y))
  | .sub => some (checkedComplex p (x.sub y))
  | .mul => some (checkedComplex p (x.mul y))
  | .quo => some (if y.isZero then .error .divisionByZero else checkedComplex p (x.div y))
  | .eq => some (.ok (.bool (x.eqv y)))
  | .ne => some (.ok (.bool (!x.eqv y)))
  | _ => none

/-! ## Truth values and strings -/

def boolUnary (x : Bool) : UnaryOp → Option (Except EvalError Value)
  | .not => some (.ok (.bool !x))
  | .neg | .bitNot => none

def boolBinary (x y : Bool) : BinaryOp → Option (Except EvalError Value)
  | .lAnd => some (.ok (.bool (x && y)))
  | .lOr => some (.ok (.bool (x || y)))
  | .eq => some (.ok (.bool (x == y)))
  | .ne => some (.ok (.bool (x != y)))
  | _ => none

/-- Strings are ordered by code points. -/
def stringBinary (x y : String) : BinaryOp → Option (Except EvalError Value)
  | .add => some (.ok (.string (x ++ y)))
  | .lt => some (.ok (.bool (decide (x < y))))
  | .le => some (.ok (.bool (!decide (y < x))))
  | .gt => some (.ok (.bool (decide (y < x))))
  | .ge => some (.ok (.bool (!decide (x < y))))
  | .eq => some (.ok (.bool (x == y)))
  | .ne => some (.ok (.bool (x != y)))
  | _ => none

/-! ## All values -/

/-- Applies a unary operator. -/
def unary (op : UnaryOp) : Value → Option (Except EvalError Value)
  | .bool x => boolUnary x op
  | .integer k x _ => integerUnary k x op
  | .float p x => floatUnary p x.toDouble op
  | .complex p re im => complexUnary p ⟨re.toDouble, im.toDouble⟩ op
  | .string _ => none

/-- Applies a binary operator to operands of one kind; a shift count may be of any integer kind. -/
def binary (op : BinaryOp) : Value → Value → Option (Except EvalError Value)
  | .bool x, .bool y => boolBinary x y op
  | .integer k x _, .integer l y _ =>
    if k = l ∨ op.isShift then integerBinary k x y op else none
  | .float p x, .float q y =>
    if p = q then floatBinary p x.toDouble y.toDouble op else none
  | .complex p a b, .complex q c d =>
    if p = q then complexBinary p ⟨a.toDouble, b.toDouble⟩ ⟨c.toDouble, d.toDouble⟩ op else none
  | .string x, .string y => stringBinary x y op
  | _, _ => none

/-- An operation without a meaning is a fault of the caller. -/
def settle (op : Operator) (k : Kind) :
    Option (Except EvalError Value) → Except (Failure EvalError) Value
  | some (.ok v) => .ok v
  | some (.error e) => .error (.error e)
  | none => .error (.fault (.operatorOnKind op k))

/-- Applies an operator to operands that are all of kind `k`, the count of a shift apart. The
number and the kinds of the operands are the caller's duty. -/
def apply (k : Kind) (op : Operator) (args : List Value) : Except (Failure EvalError) Value :=
  match op, args with
  | .unary u, [x] =>
    if x.kind ≠ k then .error (.fault (.operandKind x.kind k))
    else settle op k (unary u x)
  | .binary b, [x, y] =>
    if x.kind ≠ k then .error (.fault (.operandKind x.kind k))
    else if if b.isShift then !y.kind.isInteger else y.kind ≠ k then
      .error (.fault (.operandKind y.kind k))
    else settle op k (binary b x y)
  | _, _ => .error (.fault (.operandCount op args.length))

end Evaluate

end Lowering
