import Lowering.Constant.Bind

/-!
# Emission calls

The instructions that a front end gives to a backend, as data. A backend is a state with one step
for every call, so a whole compilation is the fold of a list of calls. Two calls hand something
back, and both results can be read off the state before the call: the place that `reserve` reserves
and the mark that `startStmt` sets.

Some counts have special values: an index or an arity below zero stands for what the stack or the
last argument supplies, as the constants of this module say.

A constant meets a backend when it is reserved and when it is bound. Binding is given as a function,
`Const.bindIn`, and as the steps that change the constant and the backend, `Binding.attempt`.
-/

namespace Lowering

/-- The index is on the stack. -/
def indexFromStack : Int := -1

/-- The bound of a slice is on the stack. -/
def boundFromStack : Int := -1

/-- The bound of a slice is left out. -/
def boundOmitted : Int := -2

/-- The last argument stands for the remaining ones. -/
def arityEllipsis : Int := -1

/-- The result variables hold what is returned. -/
def returnNamedResults : Int := -1

/-- One instruction to a backend. -/
inductive Call
  /-- Push a constant. -/
  | push (v : Value)
  /-- Discard values. -/
  | pop (n : Nat)
  | builtinOp (k : Kind) (op : Operator)
  /-- Place a label here. -/
  | label (l : Label)
  | jump (l : Label)
  /-- Take a truth value and jump if it is `cond`. -/
  | jumpIf (cond : Bool) (l : Label)
  /-- Take `arity` values and jump if the switch tag below them is none of them. -/
  | caseNe (l : Label) (arity : Nat)
  /-- Drop the switch tag. -/
  | defaultCase
  | forPhrase (f : ForPhrase) (key val : Option Var) (hasContext : Bool)
  /-- Take a truth value and go on with the next element unless it holds. -/
  | filterForPhrase (f : ForPhrase)
  | endForPhrase (f : ForPhrase)
  | listComprehension (c : Comprehension)
  | mapComprehension (c : Comprehension)
  | endComprehension (c : Comprehension)
  /-- Push a function of the program. -/
  | closure (f : Func)
  /-- Push a function of the program as native code sees it. -/
  | nativeClosure (f : Func)
  | callClosure (nexpr : Nat) (arity : Int) (ellipsis : Bool)
  | callNativeClosure (nexpr : Nat) (arity : Int) (ellipsis : Bool)
  | callFunc (f : Func) (nexpr : Nat)
  | callVariadicFunc (f : Func) (nexpr : Nat) (arity : Int)
  | callNative (address nexpr : Nat)
  | callVariadicNative (address nexpr : Nat) (arity : Int)
  | defineFunc (f : Func)
  | endFunc (f : Func)
  | ret (n : Int)
  /-- Push an argument of the function; -1 is the last one. -/
  | load (index : Int)
  | store (index : Int)
  | defineVar (vs : List Var)
  | loadVar (v : Var)
  | storeVar (v : Var)
  | addrVar (v : Var)
  | addressOp (k : Kind) (op : AddressOp)
  | append (t : Ty) (arity : Int)
  | makeArray (t : Ty) (arity : Nat)
  | makeMap (t : Ty) (arity : Nat)
  | make (t : Ty) (arity : Nat)
  | mapIndex
  | setMapIndex
  | index (i : Int)
  | setIndex (i : Int)
  | slice (i j : Int)
  | slice3 (i j k : Int)
  | cast (source target : Ty)
  | builtin (t : Ty) (b : Builtin)
  | zero (t : Ty)
  /-- A statement starts here. -/
  | startStmt (pos : Option SourcePos)
  /-- The statement that started at `mark` ends here. -/
  | endStmt (pos : Option SourcePos) (mark : Nat)
  /-- Keep a place for a constant. -/
  | reserve
  /-- Put a constant into its place. -/
  | fill (r : Reservation) (v : Value)
  deriving DecidableEq

/-- A state that takes emission calls. -/
class Backend (β : Type) where
  step : β → Call → Except Fault β
  /-- The place that `reserve` would reserve now. -/
  nextReservation : β → Reservation
  /-- The mark that `startStmt` would set now. -/
  nextMark : β → Nat
  /-- Whether the variable is one of the innermost open function, or of the top level outside
  any. -/
  inCurrentContext : β → Var → Bool

namespace Backend

variable {β : Type} [Backend β]

/-- Takes calls in order, up to the first fault. -/
def run (b : β) (calls : List Call) : Except Fault β := calls.foldlM step b

end Backend

namespace Const

variable {β : Type} [Backend β]

/-- Reserves the place where the constant goes once it is bound. -/
def reserve (c : Const) (b : β) : Except Fault (Const × β) :=
  if c.isReserved then .error (.reservedTwice c.value)
  else
    match Backend.step b .reserve with
    | .ok b' => .ok ({ c with reservation := some (Backend.nextReservation b) }, b')
    | .error f => .error f

/-- Binds to `t` and fills the constant's place. On an error both are as they were. -/
def bindIn (c : Const) (t : Ty) (b : β) : Except (Failure CompileError) (Const × β) :=
  match c.bind t with
  | .error e => .error (.error e)
  | .ok (c', none) => .ok (c', b)
  | .ok (c', some filling) =>
    match Backend.step b (.fill filling.reservation filling.value) with
    | .ok b' => .ok (c', b')
    | .error f => .error (.fault f)

end Const

/-- Computations that change a constant and the backend it belongs to. An error does not take back
what has been changed before it; a fault ends everything. -/
abbrev Binding (β : Type) := ExceptT CompileError (StateT (Const × β) (Except Fault))

namespace Binding

variable {β : Type} [Backend β]

/-- The constant takes the kind that `t` asks for, or has it already. -/
def convert (t : Ty) : Binding β Unit := do
  let (c, b) ← get
  if c.isBound then
    unless c.kind = c.targetKind t ∨ t.isEmptyInterface do
      throw (.typeMismatch t.text c.kind.name)
  else
    match c.value.represent (c.targetKind t) with
    | .ok v => set ({ c with value := v, kind := c.targetKind t }, b)
    | .error e => throw (.ofRepr e c.value t)

/-- The constant gives its reservation up and goes to its place. -/
def settle : Binding β Unit := do
  let (c, b) ← get
  if let some r := c.reservation then
    let c := { c with reservation := none }
    set (c, b)
    set (c, ← Backend.step b (.fill r c.value))

/-- One attempt to bind the constant to `t`, with its changes in the order in which they are made.
`Const.bindIn` is its outcome. -/
def attempt (t : Ty) : Binding β Unit := do
  convert t
  settle

end Binding

end Lowering
