import Lowering.Power

/-!
# Integer kinds

The eleven integer kinds, each a width and a sign rule. `Fits` says which integers a kind holds;
`wrap` reduces any integer modulo the width into that range.

Main statements: `fits_wrap` (a wrapped integer is always in range) and `wrap_of_fits` (wrapping
changes nothing that is already in range).
-/

namespace Lowering

/-- A fixed-width integer kind. `int`, `uint` and `uintptr` have 64 bits. -/
inductive IntKind
  | int | int8 | int16 | int32 | int64
  | uint | uint8 | uint16 | uint32 | uint64 | uintptr
  deriving DecidableEq, Repr

namespace IntKind

/-- Every integer kind, in the order of their kind numbers. -/
def all : List IntKind :=
  [int, int8, int16, int32, int64, uint, uint8, uint16, uint32, uint64, uintptr]

/-- Width in bits. -/
def bits : IntKind → Nat
  | int8 | uint8 => 8
  | int16 | uint16 => 16
  | int32 | uint32 => 32
  | int | int64 | uint | uint64 | uintptr => 64

/-- Whether the kind holds negative numbers. -/
def signed : IntKind → Bool
  | int | int8 | int16 | int32 | int64 => true
  | uint | uint8 | uint16 | uint32 | uint64 | uintptr => false

/-- The least number of the kind. -/
def lo (k : IntKind) : Int := if k.signed then -(2 ^ (k.bits - 1)) else 0

/-- The greatest number of the kind. -/
def hi (k : IntKind) : Int := if k.signed then 2 ^ (k.bits - 1) - 1 else 2 ^ k.bits - 1

/-- The numbers that the kind holds. -/
def Fits (k : IntKind) (z : Int) : Prop := k.lo ≤ z ∧ z ≤ k.hi

instance (k : IntKind) (z : Int) : Decidable (k.Fits z) :=
  inferInstanceAs (Decidable (_ ∧ _))

/-- The number of the kind that agrees with `z` on the low `k.bits` bits. -/
def wrap (k : IntKind) (z : Int) : Int := k.lo + (z - k.lo) % 2 ^ k.bits

theorem fits_wrap (k : IntKind) (z : Int) : k.Fits (k.wrap z) := by
  cases k <;> simp [Fits, wrap, lo, hi, signed, bits] <;> omega

theorem wrap_of_fits {k : IntKind} {z : Int} (h : k.Fits z) : k.wrap z = z := by
  cases k <;> simp [Fits, wrap, lo, hi, signed, bits] at h ⊢ <;> omega

/-- Every kind holds zero. -/
theorem fits_zero (k : IntKind) : k.Fits 0 := by cases k <;> decide

/-- The name under which source text knows the kind. -/
def name : IntKind → String
  | int => "int" | int8 => "int8" | int16 => "int16" | int32 => "int32" | int64 => "int64"
  | uint => "uint" | uint8 => "uint8" | uint16 => "uint16" | uint32 => "uint32"
  | uint64 => "uint64" | uintptr => "uintptr"

end IntKind

end Lowering
