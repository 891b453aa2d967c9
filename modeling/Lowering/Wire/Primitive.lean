import Lowering.Power

/-!
# Wire format: primitives

Numbers are written in base 128, lowest digit first, every byte but the last with its high bit set.
Signed numbers are folded into natural ones first, so that small numbers of either sign stay short.
A text is its length in bytes and its UTF-8 bytes; a list is its length and its items; an optional
value is a byte and perhaps the value.

A reader takes bytes off the front of a list and leaves the rest. Bytes that end too early are told
from bytes that are wrong: whatever is written and then cut short fails with `unexpectedEnd`.
-/

namespace Lowering.Wire

/-- Why bytes cannot be read. -/
inductive WireError
  | unexpectedEnd
  /-- A number has too many digits or is too large for its width. -/
  | badVarint
  | badBool
  | badUtf8
  | badOption
  /-- No constructor has this number. -/
  | unknownIndex
  deriving DecidableEq, Repr

def WireError.message : WireError → String
  | unexpectedEnd => "Hit the end of buffer, expected more data"
  | badVarint =>
    "Found a varint that didn't terminate. Is the usize too big for this platform?"
  | badBool => "Found a bool that wasn't 0 or 1"
  | badUtf8 => "Tried to parse invalid utf-8"
  | badOption => "Found an Option discriminant that wasn't 0 or 1"
  | unknownIndex => "Serde Deserialization Error"

/-- Takes a value off the front of some bytes. -/
abbrev Reader (α : Type) := StateT (List UInt8) (Except WireError) α

/-! ## Bytes -/

def readByte : Reader UInt8 := fun bytes =>
  match bytes with
  | [] => .error .unexpectedEnd
  | b :: rest => .ok (b, rest)

/-- Takes `n` bytes at once. -/
def readBytes (n : Nat) : Reader (List UInt8) := fun bytes =>
  if n ≤ bytes.length then .ok (bytes.take n, bytes.drop n) else .error .unexpectedEnd

/-! ## Natural numbers -/

def putNat (n : Nat) : List UInt8 :=
  if n < 128 then [UInt8.ofNat n] else UInt8.ofNat (n % 128 + 128) :: putNat (n / 128)
termination_by n
decreasing_by omega

/-- Reads at most `left` digits, of which the last possible one must not exceed `lastMax`. -/
def readDigits (lastMax : Nat) : (left : Nat) → Reader Nat
  | 0 => throw .badVarint
  | left + 1 => do
    let b ← readByte
    if b.toNat < 128 then
      if left = 0 ∧ lastMax < b.toNat then throw .badVarint
      return b.toNat
    else
      let high ← readDigits lastMax left
      return b.toNat - 128 + 128 * high

/-- Reads a natural number of at most `width` bits. -/
def readNat (width : Nat) : Reader Nat :=
  let digits := (width + 6) / 7
  readDigits (2 ^ (width - 7 * (digits - 1)) - 1) digits

/-! ## Signed numbers -/

/-- Folds the negative numbers between the others: 0, -1, 1, -2, 2 and so on. -/
def fold (z : Int) : Nat := if 0 ≤ z then 2 * z.toNat else 2 * (-z).toNat - 1

/-- Undoes `fold`. -/
def unfold (n : Nat) : Int := if n % 2 = 0 then (n / 2 : Nat) else -((n + 1) / 2 : Nat)

theorem unfold_fold (z : Int) : unfold (fold z) = z := by
  unfold unfold fold
  split <;> split <;> omega

def putInt (z : Int) : List UInt8 := putNat (fold z)

/-- Reads a signed number of at most `width` bits. -/
def readInt (width : Nat) : Reader Int := do return unfold (← readNat width)

/-! ## Fixed-size words -/

/-- The lowest `n` bytes of a number, lowest first. -/
def putWord : (n : Nat) → Nat → List UInt8
  | 0, _ => []
  | n + 1, w => UInt8.ofNat (w % 256) :: putWord n (w / 256)

/-- The number whose bytes are given, lowest first. -/
def wordOf : List UInt8 → Nat
  | [] => 0
  | b :: rest => b.toNat + 256 * wordOf rest

def readWord (n : Nat) : Reader Nat := do return wordOf (← readBytes n)

/-! ## Truth values, texts, lists, options -/

def putBool (b : Bool) : List UInt8 := [if b then 1 else 0]

def readBool : Reader Bool := do
  match (← readByte).toNat with
  | 0 => return false
  | 1 => return true
  | _ => throw .badBool

/-- The UTF-8 bytes of a text. -/
def utf8 (s : String) : List UInt8 := s.toByteArray.data.toList

def putString (s : String) : List UInt8 := putNat (utf8 s).length ++ utf8 s

def readString : Reader String := do
  let n ← readNat 64
  let bytes ← readBytes n
  match String.fromUTF8? ⟨bytes.toArray⟩ with
  | some s => return s
  | none => throw .badUtf8

def putList {α : Type} (put : α → List UInt8) (xs : List α) : List UInt8 :=
  putNat xs.length ++ xs.flatMap put

/-- Reads `n` items. -/
def readMany {α : Type} (read : Reader α) : (n : Nat) → Reader (List α)
  | 0 => return []
  | n + 1 => do
    let x ← read
    let xs ← readMany read n
    return x :: xs

def readList {α : Type} (read : Reader α) : Reader (List α) := do readMany read (← readNat 64)

def putOption {α : Type} (put : α → List UInt8) : Option α → List UInt8
  | none => [0]
  | some a => 1 :: put a

def readOption {α : Type} (read : Reader α) : Reader (Option α) := do
  match (← readByte).toNat with
  | 0 => return none
  | 1 => return some (← read)
  | _ => throw .badOption

/-! ## Constructor numbers -/

def putIndex (i : Nat) : List UInt8 := putNat i

def readIndex : Reader Nat := readNat 32

/-- Reads the number of an item of a fixed list. -/
def readOneOf {α : Type} (items : List α) : Reader α := do
  match items[← readIndex]? with
  | some a => return a
  | none => throw .unknownIndex

/-- Writes the place of an item in a fixed list. -/
def putOneOf {α : Type} [BEq α] (items : List α) (a : α) : List UInt8 :=
  putIndex (items.idxOf a)

/-- Reads a value from the front of `bytes`; what follows it is ignored. -/
def run {α : Type} (read : Reader α) (bytes : List UInt8) : Except WireError α :=
  (read bytes).map (·.1)

end Lowering.Wire
