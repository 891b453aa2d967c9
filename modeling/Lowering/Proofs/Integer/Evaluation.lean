import Lowering.Proofs.Evaluate

/-!
# Evaluation in a kind

What the operators do with integers of a kind, said without words: arithmetic is exact and checked
against the range of the kind, bitwise operators work on the two's complement bits of the kind, and
shifts multiply or divide by a power of two of any size.

`apply_binary_exact` and `apply_unary_exact` settle arithmetic and shifts. A number of a kind is
known by its bits (`ofPattern_pattern`), so a bitwise operator is settled by what it does to them.
-/

namespace Lowering

/-! ## Bit patterns -/

/-- The two's complement bits of a number in a kind. -/
def IntKind.pattern (k : IntKind) (z : Int) : BitVec k.bits := BitVec.ofInt k.bits z

/-- The value of a kind with the given bits. -/
def Value.ofPattern (k : IntKind) (bits : BitVec k.bits) : Value := wrapped k bits.toNat

theorem Value.ofPattern_pattern {k : IntKind} {z : Int} (hz : k.Fits z) :
    ofPattern k (k.pattern z) = integer k z hz := by
  have hbits : ((k.pattern z).toNat : Int) = z % 2 ^ k.bits := by
    have hpos : (0 : Int) < 2 ^ k.bits := Int.pow_pos (by decide)
    have hpow : ((2 ^ k.bits : Nat) : Int) = 2 ^ k.bits := Int.natCast_pow 2 k.bits
    rw [IntKind.pattern, BitVec.toNat_ofInt, hpow]
    exact Int.toNat_of_nonneg (Int.emod_nonneg _ (Int.ne_of_gt hpos))
  have hwrap : k.wrap (k.pattern z).toNat = z := by
    rw [hbits, IntKind.wrap, Int.emod_sub_emod, ← IntKind.wrap, IntKind.wrap_of_fits hz]
  unfold ofPattern wrapped
  simp only [hwrap]

namespace Evaluate

variable {k l : IntKind} {x y n z : Int}

/-! ## Arithmetic and shifts -/

/-- The value `z` if the kind holds it, an overflow otherwise. -/
def exactly (k : IntKind) (z : Int) : Except (Failure EvalError) Value :=
  if h : k.Fits z then .ok (.integer k z h) else .error (.error .overflow)

/-- A result is given if it is in range, and refused as an overflow if not. -/
theorem settle_checked (op : Operator) (kind : Kind) :
    settle op kind (some (checked k z)) = exactly k z := by
  unfold exactly
  split
  · next h => rw [checked_of_fits h]; rfl
  · next h => rw [checked_of_not_fits h]; rfl

/-- The value is the exact one. For unsigned integers the complement is another number. -/
theorem apply_unary_exact {op : UnaryOp} (hx : k.Fits x) (hop : op = .bitNot → k.signed = true)
    (h : op.exact x = some z) :
    apply (.integer k) (.unary op) [.integer k x hx] = exactly k z := by
  rw [apply_unary_integer _ hx, integerUnary_eq_checked hx hop h, settle_checked]

/-- Words are wide enough for every exact result that matters. -/
theorem apply_binary_exact {op : BinaryOp} (hx : k.Fits x) (hy : l.Fits y)
    (hkind : k = l ∨ op.isShift = true) (h : op.exact x y = some z) :
    apply (.integer k) (.binary op) [.integer k x hx, .integer l y hy] = exactly k z := by
  rw [apply_binary_integer hx hy hkind, integerBinary_eq_checked hx hy hkind h, settle_checked]

/-- Where there is no exact result there is an error. -/
theorem apply_binary_inexact {op : BinaryOp} (hx : k.Fits x) (hy : l.Fits y)
    (hkind : k = l ∨ op.isShift = true) (hop : op.yieldsBool = false) (h : op.exact x y = none) :
    apply (.integer k) (.binary op) [.integer k x hx, .integer l y hy] =
      .error (.error (if op.isShift then .invalidShift else .divisionByZero)) := by
  rw [apply_binary_integer hx hy hkind, integerBinary_of_exact_eq_none hy hop h]
  rfl

/-- A shift down stays in the kind. -/
theorem fits_fdiv_two_pow (hx : k.Fits x) (n : Nat) : k.Fits (x.fdiv (2 ^ n)) := by
  have hpos : (0 : Int) < 2 ^ n := Int.pow_pos (by decide)
  rw [Int.fdiv_eq_ediv_of_nonneg x (Int.le_of_lt hpos)]
  have hlo : k.lo ≤ 0 := (IntKind.fits_zero k).1
  have hhi : 0 ≤ k.hi := (IntKind.fits_zero k).2
  obtain ⟨hlower, hupper⟩ := hx
  by_cases hsign : 0 ≤ x
  · have hle : x / 2 ^ n ≤ x := Int.ediv_le_self _ hsign
    have hge : 0 ≤ x / 2 ^ n := Int.ediv_nonneg hsign (Int.le_of_lt hpos)
    exact ⟨by omega, by omega⟩
  · have hneg : x / 2 ^ n < 0 := Int.ediv_neg_of_neg_of_pos (by omega) hpos
    have hge : x ≤ x / 2 ^ n := by
      have hprod : x * 2 ^ n ≤ x * 1 := Int.mul_le_mul_of_nonpos_left (by omega) (by omega)
      exact (Int.le_ediv_iff_mul_le hpos).mpr (by omega)
    exact ⟨by omega, by omega⟩

/-! ## Bits -/

theorem exactly_of_fits (h : k.Fits z) : exactly k z = .ok (.integer k z h) := dif_pos h

/-- The bits of the complement, in a kind with or without a sign. -/
theorem pattern_flipped (k : IntKind) (x : Int) :
    k.pattern (flipped k x) = ~~~k.pattern x := by
  unfold flipped IntKind.pattern
  split
  · exact Bits.ofInt_lnot
  · next hsigned =>
    -- The greatest number has all bits set, and a difference from it flips them.
    have hhi : k.hi - x = x.lnot + 2 ^ k.bits := by
      rw [Bits.lnot_eq, IntKind.hi, if_neg hsigned]
      omega
    rw [hhi, ← Bits.ofInt_lnot]
    apply BitVec.eq_of_toNat_eq
    rw [BitVec.toNat_ofInt, BitVec.toNat_ofInt, Int.natCast_pow]
    exact congrArg Int.toNat (Int.add_emod_right _ _)

/-- On the bits of its kind, the complement is always defined. -/
theorem apply_bitNot (hx : k.Fits x) :
    apply (.integer k) (.unary .bitNot) [.integer k x hx] =
      .ok (.ofPattern k (~~~k.pattern x)) := by
  rw [apply_unary_integer _ hx, integerUnary_bitNot hx, settle_checked,
    exactly_of_fits (fits_flipped hx), ← pattern_flipped, Value.ofPattern_pattern]

/-- The exact result has the bits that are expected. -/
theorem apply_bitwise {op : BinaryOp} {bits : BitVec k.bits} (hx : k.Fits x) (hy : k.Fits y)
    (hz : k.Fits z) (h : op.exact x y = some z) (hbits : k.pattern z = bits) :
    apply (.integer k) (.binary op) [.integer k x hx, .integer k y hy] =
      .ok (.ofPattern k bits) := by
  rw [apply_binary_exact hx hy (.inl rfl) h, exactly_of_fits hz, ← hbits, Value.ofPattern_pattern]

/-! ## The whole table -/

/-- Arithmetic on `x` and `y` is exact in `k`. The quotient goes toward zero, so the remainder has
the sign of the dividend. -/
structure ExactArithmetic (k : IntKind) (x y : Value) (a b : Int) : Prop where
  neg : apply (.integer k) (.unary .neg) [x] = exactly k (-a)
  add : apply (.integer k) (.binary .add) [x, y] = exactly k (a + b)
  sub : apply (.integer k) (.binary .sub) [x, y] = exactly k (a - b)
  mul : apply (.integer k) (.binary .mul) [x, y] = exactly k (a * b)
  byZero : b = 0 →
    apply (.integer k) (.binary .quo) [x, y] = .error (.error .divisionByZero) ∧
    apply (.integer k) (.binary .mod) [x, y] = .error (.error .divisionByZero)
  divided : b ≠ 0 → ∃ q r, a = q * b + r ∧ r.natAbs < b.natAbs ∧ (r = 0 ∨ r.sign = a.sign) ∧
    apply (.integer k) (.binary .quo) [x, y] = exactly k q ∧
    apply (.integer k) (.binary .mod) [x, y] = exactly k r

/-- Bitwise operators act on the bits of the kind and always succeed. -/
structure ExactBits (k : IntKind) (x y : Value) (a b : Int) : Prop where
  and : apply (.integer k) (.binary .and) [x, y] = .ok (.ofPattern k (k.pattern a &&& k.pattern b))
  or : apply (.integer k) (.binary .or) [x, y] = .ok (.ofPattern k (k.pattern a ||| k.pattern b))
  xor : apply (.integer k) (.binary .xor) [x, y] = .ok (.ofPattern k (k.pattern a ^^^ k.pattern b))
  andNot : apply (.integer k) (.binary .andNot) [x, y] =
    .ok (.ofPattern k (k.pattern a &&& ~~~k.pattern b))
  bitNot : apply (.integer k) (.unary .bitNot) [x] = .ok (.ofPattern k (~~~k.pattern a))

/-- Shifts of `x` by a count of any kind and size. -/
structure ExactShifts (k : IntKind) (x count : Value) (a n : Int) : Prop where
  negative : n < 0 →
    apply (.integer k) (.binary .lsh) [x, count] = .error (.error .invalidShift) ∧
    apply (.integer k) (.binary .rsh) [x, count] = .error (.error .invalidShift)
  up : 0 ≤ n → apply (.integer k) (.binary .lsh) [x, count] = exactly k (a * 2 ^ n.toNat)
  down : 0 ≤ n → ∃ h,
    apply (.integer k) (.binary .rsh) [x, count] = .ok (.integer k (a.fdiv (2 ^ n.toNat)) h)

theorem exactArithmetic (hx : k.Fits x) (hy : k.Fits y) :
    ExactArithmetic k (.integer k x hx) (.integer k y hy) x y where
  neg := apply_unary_exact hx (by simp) rfl
  add := apply_binary_exact hx hy (.inl rfl) rfl
  sub := apply_binary_exact hx hy (.inl rfl) rfl
  mul := apply_binary_exact hx hy (.inl rfl) rfl
  byZero hzero :=
    ⟨apply_binary_inexact hx hy (.inl rfl) rfl (if_pos hzero),
      apply_binary_inexact hx hy (.inl rfl) rfl (if_pos hzero)⟩
  divided hne := by
    refine ⟨x.tdiv y, x.tmod y, ?_, ?_, ?_, ?_, ?_⟩
    · rw [Int.add_comm, Int.tmod_add_tdiv_mul]
    · rw [Int.natAbs_tmod]
      exact Nat.mod_lt _ (Int.natAbs_pos.mpr hne)
    · have hsign := Int.sign_tmod x y
      split at hsign
      · exact .inl (Int.sign_eq_zero_iff_zero.mp hsign)
      · exact .inr hsign
    · exact apply_binary_exact hx hy (.inl rfl) (if_neg hne)
    · exact apply_binary_exact hx hy (.inl rfl) (if_neg hne)

theorem exactBits (hx : k.Fits x) (hy : k.Fits y) :
    ExactBits k (.integer k x hx) (.integer k y hy) x y where
  and := apply_bitwise hx hy (hx.bitwise hy).1 rfl Bits.ofInt_land
  or := apply_bitwise hx hy (hx.bitwise hy).2.1 rfl Bits.ofInt_lor
  xor := apply_bitwise hx hy (hx.bitwise hy).2.2.1 rfl Bits.ofInt_xor
  andNot := apply_bitwise hx hy (hx.bitwise hy).2.2.2 rfl Bits.ofInt_ldiff
  bitNot := apply_bitNot hx

theorem exactShifts (hx : k.Fits x) (hn : l.Fits n) :
    ExactShifts k (.integer k x hx) (.integer l n hn) x n where
  negative hneg :=
    ⟨apply_binary_inexact hx hn (.inr rfl) rfl (if_pos hneg),
      apply_binary_inexact hx hn (.inr rfl) rfl (if_pos hneg)⟩
  up hpos := apply_binary_exact hx hn (.inr rfl) (if_neg (Int.not_lt.mpr hpos))
  down hpos := by
    have hfits := fits_fdiv_two_pow hx n.toNat
    have hexact : BinaryOp.exact .rsh x n = some (x.fdiv (2 ^ n.toNat)) :=
      if_neg (Int.not_lt.mpr hpos)
    refine ⟨hfits, ?_⟩
    rw [apply_binary_exact hx hn (.inr rfl) hexact, exactly_of_fits hfits]

theorem Gives.isSome {kind : Kind} {outcome : Option (Except EvalError Value)}
    (h : Gives kind outcome) : outcome.isSome = true := by
  obtain ⟨r, rfl, -⟩ := h
  rfl

/-- **Evaluation is exact.** Whatever the kind, for all operands of the kind and every count of any
kind: arithmetic gives the exact result if the kind holds it and an overflow otherwise, but for a
divisor of zero; bitwise operators always succeed and act on the bits of the kind; shifts multiply
by a power of two or divide by one and round down, but for a negative count. No operation on words
that is not checked overflows: each of them would leave the evaluation without an outcome. -/
theorem apply_integer_exact (hx : k.Fits x) (hy : k.Fits y) (hn : l.Fits n) :
    ExactArithmetic k (.integer k x hx) (.integer k y hy) x y ∧
    ExactBits k (.integer k x hx) (.integer k y hy) x y ∧
    ExactShifts k (.integer k x hx) (.integer l n hn) x n ∧
    (∀ op : UnaryOp, op.accepts (.integer k) = true → (wordUnary k (.ofInt x) op).isSome = true) ∧
    (∀ op : BinaryOp, op.accepts (.integer k) = true →
      (wordBinary k (.ofInt x) (.ofInt y) op).isSome = true) ∧
    ∀ op : BinaryOp, op.isShift = true → (wordBinary k (.ofInt x) (.ofInt n) op).isSome = true := by
  refine ⟨exactArithmetic hx hy, exactBits hx hy, exactShifts hx hn, ?_, ?_, ?_⟩
  · intro op hop
    exact (gives_integerUnary hx hop).isSome
  · intro op hop
    exact (gives_integerBinary hx hy (.inl rfl) hop).isSome
  · intro op hop
    have haccepts : op.accepts (.integer k) = true := by
      cases op with
      | lsh | rsh => rfl
      | _ => cases hop
    exact (gives_integerBinary hx hn (.inr hop) haccepts).isSome

/-- The square of the greatest number of 64 bits is not even a word, its complement is zero, and a
count of a hundred leaves nothing of it. -/
theorem apply_greatest_uint64 :
    ∃ (hx : IntKind.uint64.Fits (2 ^ 64 - 1)) (hn : IntKind.int8.Fits 100),
      let top := Value.integer .uint64 (2 ^ 64 - 1) hx
      apply (.integer .uint64) (.binary .mul) [top, top] = .error (.error .overflow) ∧
      apply (.integer .uint64) (.unary .bitNot) [top] = .ok (.ofPattern .uint64 0) ∧
      (∃ h, apply (.integer .uint64) (.binary .rsh) [top, .integer .int8 100 hn] =
        .ok (.integer .uint64 0 h)) := by
  refine ⟨by decide, by decide, ?_⟩
  obtain ⟨harith, hbits, hshifts, -⟩ := apply_integer_exact (k := .uint64) (l := .int8)
    (x := 2 ^ 64 - 1) (y := 2 ^ 64 - 1) (n := 100) (by decide) (by decide) (by decide)
  refine ⟨harith.mul, hbits.bitNot, hshifts.down (by decide)⟩

end Evaluate

end Lowering
