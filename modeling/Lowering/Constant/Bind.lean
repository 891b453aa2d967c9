import Lowering.Constant

/-!
# Binding constants to types

Binding gives an open constant the kind of a type, by an exact conversion. A bound constant accepts
only a type of its own kind. The empty interface accepts every constant; an open one then takes its
default kind. A failed binding changes nothing, so it may be tried again with another type.

`bind` says what the constant becomes and what its reservation, if it has one, is to be filled with.
-/

namespace Lowering

/-- A reservation together with the value that fills it. -/
structure Filling where
  reservation : Reservation
  value : Value
  deriving DecidableEq

namespace Const

/-- The kind that binding to `t` asks for. -/
def targetKind (c : Const) (t : Ty) : Kind :=
  if t.isEmptyInterface then c.defaultKind else t.kind

/-- The value and the kind after binding to `t`. -/
def boundAs (c : Const) (t : Ty) : Except CompileError (Value × Kind) :=
  if c.isBound then
    if c.kind = c.targetKind t ∨ t.isEmptyInterface then .ok (c.value, c.kind)
    else .error (.typeMismatch t.text c.kind.name)
  else
    match c.value.represent (c.targetKind t) with
    | .ok v => .ok (v, c.targetKind t)
    | .error e => .error (.ofRepr e c.value t)

/-- Binds to `t`: the constant afterwards, without a reservation, and what to fill. -/
def bind (c : Const) (t : Ty) : Except CompileError (Const × Option Filling) :=
  match c.boundAs t with
  | .ok (v, k) => .ok ({ value := v, kind := k }, c.reservation.map (⟨·, v⟩))
  | .error e => .error e

/-- Whether an open constant with value `v` can be bound to `t`. -/
def convertible (v : Value) (t : Ty) : Bool :=
  if t.isEmptyInterface then true
  else
    match t.kind with
    | .string => v.kind == .string
    | .complex p => v.toComplex?.isSome && (v.represent (.complex p)).toBool
    | k => (v.represent k).toBool

end Const

end Lowering
