import Lowering.Constant.Bind
import Lowering.Operand

/-!
# Element types of composite literals

The elements of a list or map literal must agree on one type. An element with a fixed type decides,
and every open constant must convert to it. If all elements are open constants, they must agree on
their default type. Keys and values of a map literal alternate in one list, so the elements are
selected by a range and a step.
-/

namespace Lowering.ElementType

/-- Leaves out `skip` elements, then takes one and leaves out `gap` again and again. -/
def everyFrom {α : Type} (gap : Nat) : (skip : Nat) → List α → List α
  | _, [] => []
  | 0, x :: xs => x :: everyFrom gap gap xs
  | skip + 1, _ :: xs => everyFrom gap skip xs

/-- The elements at `base`, `base + step` and so on, below `max`. -/
def select {α : Type} (base max step : Nat) (xs : List α) : List α :=
  everyFrom (step - 1) 0 ((xs.take max).drop base)

/-- What the elements seen so far ask for: a fixed type, and constants that have to convert. -/
structure Demand where
  fixed : Option Ty := none
  pending : List Const := []

/-- Adds the demand of one more element. -/
def Demand.add (d : Demand) (o : Operand) : Except (Failure CompileError) Demand :=
  match o.arity with
  | 0 => .error (.error .notAValue)
  | 1 =>
    match o with
    | .const c =>
      if c.isBound then fix o else .ok { d with pending := d.pending ++ [c] }
    | o => fix o
  | count => .error (.error (.multipleValues count))
where
  /-- Asks for the type of `o`, which must be the one asked for before. -/
  fix (o : Operand) : Except (Failure CompileError) Demand :=
    match o.ty with
    | .error f => .error (.fault f)
    | .ok t =>
      match d.fixed with
      | none => .ok { d with fixed := some t }
      | some u => if u = t then .ok d else .error (.error .mismatchedElements)

/-- The default kind that all constants share; none if there are no constants. -/
def commonKind : List Const → Except CompileError (Option Kind)
  | [] => .ok none
  | c :: cs =>
    if cs.all (·.defaultKind = c.defaultKind) then .ok (some c.defaultKind)
    else .error .mismatchedElements

/-- The type that meets a demand; none if nothing was asked for. -/
def Demand.meet (d : Demand) : Except (Failure CompileError) (Option Ty) :=
  match d.fixed with
  | some t =>
    if d.pending.all (fun c => Const.convertible c.value t) then .ok (some t)
    else .error (.error .mismatchedElements)
  | none =>
    match commonKind d.pending with
    | .error e => .error (.error e)
    | .ok none => .ok none
    | .ok (some k) =>
      match Const.typeOfKind k with
      | .ok t => .ok (some t)
      | .error f => .error (.fault f)

/-- The type on which all elements agree. -/
def ofElements (elements : List Operand) : Except (Failure CompileError) (Option Ty) :=
  match elements.foldlM Demand.add {} with
  | .ok d => d.meet
  | .error e => .error e

/-- The type on which the selected elements agree; none if none are selected. -/
def unify (elements : List Operand) (base max step : Nat) :
    Except (Failure CompileError) (Option Ty) :=
  if step = 0 then .error (.fault .zeroStep)
  else if max < base ∨ elements.length < max then
    .error (.fault (.badRange base max elements.length))
  else ofElements (select base max step elements)

end Lowering.ElementType
