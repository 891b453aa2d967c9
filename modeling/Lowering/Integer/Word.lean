/-!
# Words

Integers of every kind are computed in words of 128 bits, in two's complement. A word holds every
number of every kind, and the sum of any two, but not every product.

An operation whose result is no word has none. The caller of a checked operation expects this and
reports it. Elsewhere nobody looks: an operation that is not checked must never be without a result.
-/

namespace Lowering

/-- A signed number of 128 bits. -/
abbrev Word := BitVec 128

namespace Word

/-- The word of an integer, which keeps its low bits. -/
def ofInt (z : Int) : Word := BitVec.ofInt 128 z

def neg? (x : Word) : Option Word := if x.negOverflow then none else some (-x)

def add? (x y : Word) : Option Word := if x.saddOverflow y then none else some (x + y)

def sub? (x y : Word) : Option Word := if x.ssubOverflow y then none else some (x - y)

def mul? (x y : Word) : Option Word := if x.smulOverflow y then none else some (x * y)

/-- Whether a division goes wrong: by zero, or because the least word has no negation. -/
def divisionFails (x y : Word) : Bool := y == 0#128 || (x == BitVec.intMin 128 && y == -1#128)

/-- The quotient, toward zero. -/
def quo? (x y : Word) : Option Word := if x.divisionFails y then none else some (x.sdiv y)

/-- The remainder, with the sign of the dividend. -/
def mod? (x y : Word) : Option Word := if x.divisionFails y then none else some (x.srem y)

/-- Moves the bits up; those that leave the word are lost. The count must be below the width. -/
def shiftLeft? (x : Word) (n : Nat) : Option Word := if n < 128 then some (x <<< n) else none

/-- Moves the bits down and repeats the sign. The count must be below the width. -/
def shiftRight? (x : Word) (n : Nat) : Option Word :=
  if n < 128 then some (x.sshiftRight n) else none

end Word

end Lowering
