import Lowering.Ty
import Lowering.Wire.Value

/-!
# Wire format: types

A type is the number of its constructor and its parts. Types nest, so reading one takes a bound on
the nesting; every level reads at least one byte, and so the number of bytes left is bound enough.
-/

namespace Lowering.Wire

mutual

def putTy : Ty → List UInt8
  | .basic k => putIndex 0 ++ putKind k
  | .named pkgPath name t => putIndex 1 ++ putString pkgPath ++ putString name ++ putTy t
  | .array n t => putIndex 2 ++ putNat n ++ putTy t
  | .slice t => putIndex 3 ++ putTy t
  | .map k t => putIndex 4 ++ putTy k ++ putTy t
  | .ptr t => putIndex 5 ++ putTy t
  | .chan t => putIndex 6 ++ putTy t
  | .func ps rs v =>
    putIndex 7 ++ (putNat ps.length ++ putTys ps) ++ (putNat rs.length ++ putTys rs) ++ putBool v
  | .interface => putIndex 8
  | .struct fs => putIndex 9 ++ (putNat fs.length ++ putFields fs)

def putTys : List Ty → List UInt8
  | [] => []
  | t :: ts => putTy t ++ putTys ts

def putFields : List (String × Ty) → List UInt8
  | [] => []
  | (name, t) :: fs => putString name ++ putTy t ++ putFields fs

end

/-- Reads a type that nests less than `depth` levels. -/
def readTyWithin : (depth : Nat) → Reader Ty
  | 0 => throw .unexpectedEnd
  | depth + 1 => do
    match ← readIndex with
    | 0 => return .basic (← readKind)
    | 1 =>
      let pkgPath ← readString
      let name ← readString
      return .named pkgPath name (← readTyWithin depth)
    | 2 =>
      let n ← readNat 64
      return .array n (← readTyWithin depth)
    | 3 => return .slice (← readTyWithin depth)
    | 4 =>
      let k ← readTyWithin depth
      return .map k (← readTyWithin depth)
    | 5 => return .ptr (← readTyWithin depth)
    | 6 => return .chan (← readTyWithin depth)
    | 7 =>
      let ps ← readList (readTyWithin depth)
      let rs ← readList (readTyWithin depth)
      return .func ps rs (← readBool)
    | 8 => return .interface
    | 9 =>
      return .struct (← readList do
        let name ← readString
        return (name, ← readTyWithin depth))
    | _ => throw .unknownIndex

def readTy : Reader Ty := do readTyWithin (← get).length

end Lowering.Wire
