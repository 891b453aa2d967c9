import Lowering.Bytecode.Code
import Lowering.Wire.Ty

/-!
# Stored bytecode

`Code.toBytes` writes finished code and `Code.ofBytes` reads it back. Instructions are the number of
their constructor and their operands in order. Bytes after the code are ignored.
-/

namespace Lowering.Bytecode

open Wire

namespace VarRef

def put (r : VarRef) : List UInt8 := putNat r.scope ++ putNat r.slot

def read : Reader VarRef := do
  let scope ← readNat 32
  return ⟨scope, ← readNat 32⟩

end VarRef

namespace Op

def put : Op → List UInt8
  | push v => putIndex 0 ++ putValue v
  | pop n => putIndex 1 ++ putNat n
  | reserved => putIndex 2
  | zero t => putIndex 3 ++ putTy t
  | builtinOp k op => putIndex 4 ++ putKind k ++ putOperator op
  | addressOp k op => putIndex 5 ++ putKind k ++ putAddressOp op
  | cast source target => putIndex 6 ++ putTy source ++ putTy target
  | builtin t b => putIndex 7 ++ putTy t ++ putBuiltin b
  | jump d => putIndex 8 ++ putInt d
  | jumpIf cond d => putIndex 9 ++ putBool cond ++ putInt d
  | caseNe d arity => putIndex 10 ++ putInt d ++ putNat arity
  | default => putIndex 11
  | forPhrase key val context d =>
    putIndex 12 ++ putOption VarRef.put key ++ putOption VarRef.put val ++ putBool context ++
      putInt d
  | filterForPhrase d => putIndex 13 ++ putInt d
  | endForPhrase d => putIndex 14 ++ putInt d
  | listComprehension t => putIndex 15 ++ putTy t
  | mapComprehension t => putIndex 16 ++ putTy t
  | endComprehension => putIndex 17
  | closure f => putIndex 18 ++ putNat f
  | nativeClosure f => putIndex 19 ++ putNat f
  | callClosure nexpr arity ellipsis =>
    putIndex 20 ++ putNat nexpr ++ putInt arity ++ putBool ellipsis
  | callNativeClosure nexpr arity ellipsis =>
    putIndex 21 ++ putNat nexpr ++ putInt arity ++ putBool ellipsis
  | callFunc f nexpr => putIndex 22 ++ putNat f ++ putNat nexpr
  | callVariadicFunc f nexpr arity => putIndex 23 ++ putNat f ++ putNat nexpr ++ putInt arity
  | callNative a nexpr => putIndex 24 ++ putNat a ++ putNat nexpr
  | callVariadicNative a nexpr arity => putIndex 25 ++ putNat a ++ putNat nexpr ++ putInt arity
  | ret n => putIndex 26 ++ putInt n
  | load i => putIndex 27 ++ putInt i
  | store i => putIndex 28 ++ putInt i
  | loadVar r => putIndex 29 ++ r.put
  | storeVar r => putIndex 30 ++ r.put
  | addrVar r => putIndex 31 ++ r.put
  | append t arity => putIndex 32 ++ putTy t ++ putInt arity
  | makeArray t arity => putIndex 33 ++ putTy t ++ putNat arity
  | makeMap t arity => putIndex 34 ++ putTy t ++ putNat arity
  | make t arity => putIndex 35 ++ putTy t ++ putNat arity
  | mapIndex => putIndex 36
  | setMapIndex => putIndex 37
  | index i => putIndex 38 ++ putInt i
  | setIndex i => putIndex 39 ++ putInt i
  | slice i j => putIndex 40 ++ putInt i ++ putInt j
  | slice3 i j k => putIndex 41 ++ putInt i ++ putInt j ++ putInt k

/-- Reads an operation's operands. The instruction's numbers have 32 bits, its counts of values on
the stack 64. -/
def readOperands : (index : Nat) → Reader Op
  | 0 => return push (← readValue)
  | 1 => return pop (← readNat 64)
  | 2 => return reserved
  | 3 => return zero (← readTy)
  | 4 => do
    let k ← readKind
    return builtinOp k (← readOperator)
  | 5 => do
    let k ← readKind
    return addressOp k (← readAddressOp)
  | 6 => do
    let source ← readTy
    return cast source (← readTy)
  | 7 => do
    let t ← readTy
    return builtin t (← readBuiltin)
  | 8 => return jump (← readInt 32)
  | 9 => do
    let cond ← readBool
    return jumpIf cond (← readInt 32)
  | 10 => do
    let d ← readInt 32
    return caseNe d (← readNat 64)
  | 11 => return default
  | 12 => do
    let key ← readOption VarRef.read
    let val ← readOption VarRef.read
    let context ← readBool
    return forPhrase key val context (← readInt 32)
  | 13 => return filterForPhrase (← readInt 32)
  | 14 => return endForPhrase (← readInt 32)
  | 15 => return listComprehension (← readTy)
  | 16 => return mapComprehension (← readTy)
  | 17 => return endComprehension
  | 18 => return closure (← readNat 32)
  | 19 => return nativeClosure (← readNat 32)
  | 20 => do
    let nexpr ← readNat 64
    let arity ← readInt 32
    return callClosure nexpr arity (← readBool)
  | 21 => do
    let nexpr ← readNat 64
    let arity ← readInt 32
    return callNativeClosure nexpr arity (← readBool)
  | 22 => do
    let f ← readNat 32
    return callFunc f (← readNat 64)
  | 23 => do
    let f ← readNat 32
    let nexpr ← readNat 64
    return callVariadicFunc f nexpr (← readInt 32)
  | 24 => do
    let a ← readNat 32
    return callNative a (← readNat 64)
  | 25 => do
    let a ← readNat 32
    let nexpr ← readNat 64
    return callVariadicNative a nexpr (← readInt 32)
  | 26 => return ret (← readInt 32)
  | 27 => return load (← readInt 32)
  | 28 => return store (← readInt 32)
  | 29 => return loadVar (← VarRef.read)
  | 30 => return storeVar (← VarRef.read)
  | 31 => return addrVar (← VarRef.read)
  | 32 => do
    let t ← readTy
    return append t (← readInt 32)
  | 33 => do
    let t ← readTy
    return makeArray t (← readNat 64)
  | 34 => do
    let t ← readTy
    return makeMap t (← readNat 64)
  | 35 => do
    let t ← readTy
    return make t (← readNat 64)
  | 36 => return mapIndex
  | 37 => return setMapIndex
  | 38 => return index (← readInt 32)
  | 39 => return setIndex (← readInt 32)
  | 40 => do
    let i ← readInt 32
    return slice i (← readInt 32)
  | 41 => do
    let i ← readInt 32
    let j ← readInt 32
    return slice3 i j (← readInt 32)
  | _ => throw .unknownIndex

def read : Reader Op := do readOperands (← readIndex)

end Op

namespace FuncEntry

def put (f : FuncEntry) : List UInt8 :=
  putNat f.id ++ putString f.name ++ putNat f.entry ++ putNat f.stop ++ putNat f.numIn ++
    putNat f.numOut ++ putBool f.variadic ++ putNat f.numVars

def read : Reader FuncEntry := do
  let id ← readNat 32
  let name ← readString
  let entry ← readNat 64
  let stop ← readNat 64
  let numIn ← readNat 64
  let numOut ← readNat 64
  let variadic ← readBool
  return { id, name, entry, stop, numIn, numOut, variadic, numVars := ← readNat 32 }

end FuncEntry

namespace StmtSpan

def put (s : StmtSpan) : List UInt8 :=
  putNat s.start ++ putNat s.stop ++ putString s.pos.file ++ putNat s.pos.line

def read : Reader StmtSpan := do
  let start ← readNat 64
  let stop ← readNat 64
  let file ← readString
  return { start, stop, pos := { file, line := ← readNat 32 } }

end StmtSpan

namespace Code

def toBytes (c : Code) : List UInt8 :=
  putList Op.put c.ops ++ putList FuncEntry.put c.funcs ++ putList StmtSpan.put c.spans ++
    putNat c.numVars

def read : Reader Code := do
  let ops ← readList Op.read
  let funcs ← readList FuncEntry.read
  let spans ← readList StmtSpan.read
  return { ops, funcs, spans, numVars := ← readNat 32 }

/-- Reads code from the front of some bytes. -/
def ofBytes (bytes : List UInt8) : Except WireError Code := run read bytes

end Code

end Lowering.Bytecode
