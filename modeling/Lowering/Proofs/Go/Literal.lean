import Lowering.Value

/-!
# Reading Go literals

What a constant in Go text means: the names of the truth values, a decimal number with or without a
sign, a string between double quotes with its escapes, and a number that is converted to one of the
integer kinds. A number without a conversion is an `int`. A number that its kind does not hold is no
constant, so reading fails there.

A string is a list of bytes. A character stands for its encoding, and so does an escape of a code
point; an escape by two hexadecimal or three octal digits is a single byte, which need not be a
character.
-/

namespace Lowering.Go.Literal

/-! ## Numbers -/

/-- Decimal digits. Zero has one, and no other number begins with it: that would be octal. -/
def readNat? (cs : List Char) : Option Nat :=
  if cs ≠ [] ∧ cs.all Char.isDigit ∧ (cs.head? = some '0' → cs = ['0']) then
    some (Nat.ofDigitChars 10 cs 0)
  else none

def readInt? : List Char → Option Int
  | '-' :: cs => (readNat? cs).map fun n => -(n : Int)
  | cs => (readNat? cs).map fun n => (n : Int)

/-- The constant of a kind, if the kind holds the number. -/
def represent? (k : IntKind) (z : Int) : Option Value :=
  if h : k.Fits z then some (.integer k z h) else none

/-- The integer kind and the operand of a conversion. -/
def conversion? (cs : List Char) : Option (IntKind × List Char) :=
  match cs.span (· != '(') with
  | (name, '(' :: inner) =>
    if inner.getLast? = some ')' then
      (IntKind.all.find? (·.name.toList == name)).map fun k => (k, inner.dropLast)
    else none
  | _ => none

/-! ## Strings -/

/-- The value of a digit, in lower or upper case. -/
def digit? (base : Nat) (c : Char) : Option Nat :=
  (List.range base).find? fun d => Nat.digitChar d == c.toLower

/-- So many digits behind others of value `n`, and the text behind them. -/
def readDigits? (base : Nat) : Nat → Nat → List Char → Option (Nat × List Char)
  | 0, n, cs => some (n, cs)
  | _ + 1, _, [] => none
  | count + 1, n, c :: cs => do readDigits? base count (n * base + (← digit? base c)) cs

/-- A byte by its number. -/
def byte? (n : Nat) : Option (List UInt8) := if n < 256 then some [.ofNat n] else none

/-- The encoding of a character by its code point. -/
def codePoint? (n : Nat) : Option (List UInt8) :=
  if n.isValidChar then some (String.utf8EncodeChar (.ofNat n)) else none

/-- What a number of so many digits means, and the text behind it. -/
def readCode? (base count : Nat) (meaning? : Nat → Option (List UInt8)) (cs : List Char) :
    Option (List UInt8 × List Char) := do
  let (n, rest) ← readDigits? base count 0 cs
  return (← meaning? n, rest)

/-- Escapes of one letter. -/
def namedEscapes : List (Char × UInt8) :=
  [('a', 0x07), ('b', 0x08), ('f', 0x0c), ('n', 0x0a), ('r', 0x0d), ('t', 0x09), ('v', 0x0b),
   ('\\', 0x5c), ('"', 0x22)]

/-- What an escape means, behind its backslash. -/
def readEscape? : List Char → Option (List UInt8 × List Char)
  | [] => none
  | c :: cs =>
    match namedEscapes.lookup c with
    | some byte => some ([byte], cs)
    | none =>
      if c = 'x' then readCode? 16 2 byte? cs
      else if c = 'u' then readCode? 16 4 codePoint? cs
      else if c = 'U' then readCode? 16 8 codePoint? cs
      else readCode? 8 3 byte? (c :: cs)

/-- What the first character or escape of a text means. A line does not end inside a string. -/
def readElement? : List Char → Option (List UInt8 × List Char)
  | [] => none
  | c :: cs =>
    if c = '\\' then readEscape? cs
    else if c = '\n' then none
    else some (String.utf8EncodeChar c, cs)

/-- Reading consumes characters, which is what the reader of a quoted text terminates by. -/
theorem length_of_readDigits? {base count n m : Nat} {cs rest : List Char}
    (h : readDigits? base count n cs = some (m, rest)) : rest.length ≤ cs.length := by
  induction count generalizing n cs with
  | zero =>
    obtain ⟨-, rfl⟩ := Prod.mk.inj (Option.some.inj h)
    exact Nat.le_refl _
  | succ count ih =>
    cases cs with
    | nil => cases h
    | cons c cs =>
      obtain ⟨d, -, h⟩ := Option.bind_eq_some_iff.mp h
      exact Nat.le_succ_of_le (ih h)

theorem length_of_readCode? {base count : Nat} {meaning? : Nat → Option (List UInt8)}
    {bytes : List UInt8} {cs rest : List Char}
    (h : readCode? base count meaning? cs = some (bytes, rest)) : rest.length ≤ cs.length := by
  obtain ⟨⟨n, rest'⟩, hdigits, h⟩ := Option.bind_eq_some_iff.mp h
  obtain ⟨bytes', -, h⟩ := Option.bind_eq_some_iff.mp h
  obtain ⟨-, rfl⟩ := Prod.mk.inj (Option.some.inj h)
  exact length_of_readDigits? hdigits

theorem length_of_readEscape? {bytes : List UInt8} {cs rest : List Char}
    (h : readEscape? cs = some (bytes, rest)) : rest.length ≤ cs.length := by
  cases cs with
  | nil => cases h
  | cons c cs =>
    rw [readEscape?] at h
    split at h
    · obtain ⟨-, rfl⟩ := Prod.mk.inj (Option.some.inj h)
      exact Nat.le_succ _
    split at h
    · exact Nat.le_succ_of_le (length_of_readCode? h)
    split at h
    · exact Nat.le_succ_of_le (length_of_readCode? h)
    split at h
    · exact Nat.le_succ_of_le (length_of_readCode? h)
    · exact length_of_readCode? h

/-- Every character or escape takes something off the text. -/
theorem length_of_readElement? {bytes : List UInt8} {cs rest : List Char}
    (h : readElement? cs = some (bytes, rest)) : rest.length < cs.length := by
  cases cs with
  | nil => cases h
  | cons c cs =>
    rw [readElement?] at h
    split at h
    · exact Nat.lt_succ_of_le (length_of_readEscape? h)
    split at h
    · cases h
    · obtain ⟨-, rfl⟩ := Prod.mk.inj (Option.some.inj h)
      exact Nat.lt_succ_self _

/-- The bytes of a string up to its closing quote, and the text behind it. -/
def readQuoted? (cs : List Char) : Option (List UInt8 × List Char) :=
  match cs with
  | '"' :: rest => some ([], rest)
  | cs =>
    match _h : readElement? cs with
    | none => none
    | some (bytes, rest) => (readQuoted? rest).map fun (more, rest) => (bytes ++ more, rest)
termination_by cs.length
decreasing_by exact length_of_readElement? _h

/-- The closing quote ends the text. -/
theorem readQuoted?_quote (rest : List Char) : readQuoted? ('"' :: rest) = some ([], rest) := by
  rw [readQuoted?]

/-- An element in front of others gives its bytes in front of theirs. -/
theorem readQuoted?_of_readElement? {bytes : List UInt8} {cs rest : List Char}
    (hquote : cs.head? ≠ some '"') (h : readElement? cs = some (bytes, rest)) :
    readQuoted? cs = (readQuoted? rest).map fun (more, rest) => (bytes ++ more, rest) := by
  rw [readQuoted?]
  · split
    · next hnone => simp [h] at hnone
    · next hsome =>
      obtain ⟨rfl, rfl⟩ := Prod.mk.inj (Option.some.inj (h.symm.trans hsome))
      rfl
  · rintro rest rfl
    exact hquote rfl

/-- A string between its quotes. -/
def readString? : List Char → Option String
  | '"' :: cs =>
    match readQuoted? cs with
    | some (bytes, []) => String.fromUTF8? ⟨bytes.toArray⟩
    | _ => none
  | _ => none

/-! ## Constants -/

/-- A number, with its kind. -/
def readNumber? (cs : List Char) : Option Value :=
  match conversion? cs with
  | some (k, inner) => (readInt? inner).bind (represent? k)
  | none => (readInt? cs).bind (represent? .int)

/-- The constant that a text denotes. -/
def readLiteral? (cs : List Char) : Option Value :=
  if cs = "true".toList then some (.bool true)
  else if cs = "false".toList then some (.bool false)
  else if cs.head? = some '"' then (readString? cs).map .string
  else readNumber? cs

/-- Only truth values and strings begin otherwise than a number. -/
theorem readLiteral?_eq_readNumber? {cs : List Char}
    (h : ∀ c ∈ ['t', 'f', '"'], cs.head? ≠ some c) : readLiteral? cs = readNumber? cs := by
  have htrue : cs ≠ "true".toList := by
    rintro rfl
    exact h 't' (by decide) rfl
  have hfalse : cs ≠ "false".toList := by
    rintro rfl
    exact h 'f' (by decide) rfl
  rw [readLiteral?, if_neg htrue, if_neg hfalse, if_neg (h '"' (by decide))]

end Lowering.Go.Literal
