import Lowering.Operator
import Lowering.Value
import Lowering.Wire.Primitive

/-!
# Wire format: values

A value is the number of its constructor, counting every kind as one, and its payload. Integers of
eight bits are one byte, wider ones are written like all numbers; floats are their bits, lowest
byte first.
-/

namespace Lowering.Wire

/-- The bytes of a word of precision `p`. -/
def wordBytes (p : Precision) : Nat := p.width / 8

def putKind (k : Kind) : List UInt8 := putIndex k.rank

def readKind : Reader Kind := do
  match Kind.ofRank? (← readIndex) with
  | some k => return k
  | none => throw .unknownIndex

def putOperator (op : Operator) : List UInt8 := putOneOf Operator.all op

def readOperator : Reader Operator := readOneOf Operator.all

def putAddressOp (op : AddressOp) : List UInt8 := putOneOf AddressOp.all op

def readAddressOp : Reader AddressOp := readOneOf AddressOp.all

def putBuiltin (b : Builtin) : List UInt8 := putOneOf Builtin.all b

def readBuiltin : Reader Builtin := readOneOf Builtin.all

/-- The payload of an integer of kind `k`. -/
def putInteger (k : IntKind) (z : Int) : List UInt8 :=
  if k.bits = 8 then putWord 1 (z % 256).toNat
  else if k.signed then putInt z
  else putNat z.toNat

def readInteger (k : IntKind) : Reader Value := do
  if k.bits = 8 then return .wrapped k (← readWord 1)
  else if k.signed then return .wrapped k (← readInt k.bits)
  else return .wrapped k (← readNat k.bits)

def putBinary {p : Precision} (x : Binary p) : List UInt8 := putWord (wordBytes p) x.bits.toNat

def readBinary (p : Precision) : Reader (Binary p) := do
  return ⟨BitVec.ofNat _ (← readWord (wordBytes p))⟩

def putValue : Value → List UInt8
  | .bool b => putIndex 0 ++ putBool b
  | .integer k z _ => putIndex ((Kind.integer k).rank - 1) ++ putInteger k z
  | .float p x => putIndex ((Kind.float p).rank - 1) ++ putBinary x
  | .complex p re im => putIndex ((Kind.complex p).rank - 1) ++ putBinary re ++ putBinary im
  | .string s => putIndex 16 ++ putString s

/-- Values are numbered like their kinds, without the invalid kind before them; strings come
last. -/
def readValue : Reader Value := do
  let i ← readIndex
  if i = 16 then return .string (← readString)
  else
    match Kind.ofRank? (i + 1) with
    | some .bool => return .bool (← readBool)
    | some (.integer k) => readInteger k
    | some (.float p) => return .float p (← readBinary p)
    | some (.complex p) => do
      let re ← readBinary p
      let im ← readBinary p
      return .complex p re im
    | _ => throw .unknownIndex

end Lowering.Wire
