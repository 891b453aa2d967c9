import Lowering.Operator
import Lowering.Ty
import Lowering.Value

/-!
# Bytecode instructions

Jumps are relative: an instruction at `ip` with offset `d` leads to `ip + d`. Variables are found by
the number of enclosing frames to leave and a slot in the frame reached.
-/

namespace Lowering.Bytecode

/-- Where a variable lives: `scope` frames outward, at `slot`. -/
structure VarRef where
  scope : Nat
  slot : Nat
  deriving DecidableEq

/-- One instruction. -/
inductive Op
  | push (v : Value)
  | pop (n : Nat)
  /-- A place that is filled later; finished code holds none. -/
  | reserved
  | zero (t : Ty)
  | builtinOp (k : Kind) (op : Operator)
  | addressOp (k : Kind) (op : AddressOp)
  | cast (source target : Ty)
  | builtin (t : Ty) (b : Builtin)
  | jump (offset : Int)
  | jumpIf (cond : Bool) (offset : Int)
  | caseNe (offset : Int) (arity : Nat)
  | default
  | forPhrase (key val : Option VarRef) (hasContext : Bool) (exit : Int)
  | filterForPhrase (offset : Int)
  | endForPhrase (offset : Int)
  | listComprehension (t : Ty)
  | mapComprehension (t : Ty)
  | endComprehension
  | closure (func : Nat)
  | nativeClosure (func : Nat)
  | callClosure (nexpr : Nat) (arity : Int) (ellipsis : Bool)
  | callNativeClosure (nexpr : Nat) (arity : Int) (ellipsis : Bool)
  | callFunc (func nexpr : Nat)
  | callVariadicFunc (func nexpr : Nat) (arity : Int)
  | callNative (address nexpr : Nat)
  | callVariadicNative (address nexpr : Nat) (arity : Int)
  | ret (n : Int)
  | load (index : Int)
  | store (index : Int)
  | loadVar (r : VarRef)
  | storeVar (r : VarRef)
  | addrVar (r : VarRef)
  | append (t : Ty) (arity : Int)
  | makeArray (t : Ty) (arity : Nat)
  | makeMap (t : Ty) (arity : Nat)
  | make (t : Ty) (arity : Nat)
  | mapIndex
  | setMapIndex
  | index (i : Int)
  | setIndex (i : Int)
  | slice (i j : Int)
  | slice3 (i j k : Int)
  deriving DecidableEq

namespace Op

/-- The offset of an instruction that may jump. -/
def jumpOffset? : Op → Option Int
  | jump d | jumpIf _ d | caseNe d _ | filterForPhrase d | endForPhrase d => some d
  | forPhrase _ _ _ d => some d
  | _ => none

/-- The instruction with another offset; one that never jumps stays as it is. -/
def withJumpOffset (d : Int) : Op → Op
  | jump _ => jump d
  | jumpIf cond _ => jumpIf cond d
  | caseNe _ arity => caseNe d arity
  | filterForPhrase _ => filterForPhrase d
  | endForPhrase _ => endForPhrase d
  | forPhrase key val context _ => forPhrase key val context d
  | op => op

/-- Whether an offset fits the 32 bits that an instruction has for it. -/
def fitsOffset (d : Int) : Bool := -(2 ^ 31) ≤ d && d < 2 ^ 31

/-- Leads the jump at `ip` to `target`. A distance that no offset can hold changes nothing. -/
def patchJump (ops : Array Op) (ip target : Nat) : Array Op :=
  let d : Int := target - ip
  if fitsOffset d then ops.modify ip (withJumpOffset d) else ops

/-- Equality in which the floats of pushed values are compared as numbers. -/
def eqv : Op → Op → Bool
  | push u, push v => u.eqv v
  | a, b => a == b

end Op

end Lowering.Bytecode
