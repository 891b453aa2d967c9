import Mathlib.Algebra.Order.Ring.Int
import Lowering.Evaluate
import Lowering.Proofs.Integer.Word

/-!
# Exact integer arithmetic

What the operators mean on integers without bounds. `UnaryOp.exact` and `BinaryOp.exact` give the
number, `BinaryOp.compare?` the truth value: quotients are cut toward zero, bitwise operators work
on infinite two's complement, a left shift multiplies by a power of two and a right shift divides by
it and rounds down.

Evaluation in a kind is exact arithmetic followed by a check of the range:
`integerBinary_eq_checked` and `integerUnary_eq_checked`. The words in which it is carried out do
not show. Whatever is too great for a word is too great for every kind, and the operations that are
not checked never overflow. For shifts the counts may be of any size: `not_fits_mul_two_pow` and
`fdiv_two_pow_of_fits` say why the great ones make no difference.
-/

namespace Lowering

/-! ## Operators on integers -/

/-- The exact result of an arithmetic operator; nothing for the negation of truth values. -/
def UnaryOp.exact : UnaryOp → Int → Option Int
  | .neg, x => some (-x)
  | .bitNot, x => some x.lnot
  | .not, _ => none

/-- The exact result of an arithmetic operator. There is none for a divisor of zero, for a negative
count of a shift, and for operators that answer with a truth value. -/
def BinaryOp.exact : BinaryOp → Int → Int → Option Int
  | .add, x, y => some (x + y)
  | .sub, x, y => some (x - y)
  | .mul, x, y => some (x * y)
  | .quo, x, y => if y = 0 then none else some (x.tdiv y)
  | .mod, x, y => if y = 0 then none else some (x.tmod y)
  | .and, x, y => some (x.land y)
  | .or, x, y => some (x.lor y)
  | .xor, x, y => some (x.xor y)
  | .andNot, x, y => some (x.ldiff y)
  | .lsh, x, y => if y < 0 then none else some (x * 2 ^ y.toNat)
  | .rsh, x, y => if y < 0 then none else some (x.fdiv (2 ^ y.toNat))
  | _, _, _ => none

/-- The truth value of a comparison; nothing for other operators. -/
def BinaryOp.compare? : BinaryOp → Int → Int → Option Bool
  | .lt, x, y => some (x < y)
  | .le, x, y => some (x ≤ y)
  | .gt, x, y => some (y < x)
  | .ge, x, y => some (y ≤ x)
  | .eq, x, y => some (x = y)
  | .ne, x, y => some (x ≠ y)
  | _, _, _ => none

namespace IntKind

variable {k : IntKind} {x : Int} {n : Nat}

/-! ## Shifts by the width and more -/

theorem Fits.abs_lt (h : k.Fits x) : -2 ^ k.bits < x ∧ x < 2 ^ k.bits := by
  cases k <;> simp [Fits, lo, hi, signed, bits] at h ⊢ <;> omega

/-- Nothing but zero can be shifted left by the width of the kind. -/
theorem not_fits_mul_two_pow (hx : x ≠ 0) (hn : k.bits ≤ n) : ¬ k.Fits (x * 2 ^ n) := by
  intro h
  obtain ⟨hlo, hhi⟩ := h.abs_lt
  have hpow : (2 : Int) ^ k.bits ≤ 2 ^ n := pow_le_pow_right₀ one_le_two hn
  rcases Int.lt_or_gt_of_ne hx with hneg | hpos
  · have : x * 2 ^ n ≤ -1 * 2 ^ n :=
      Int.mul_le_mul_of_nonneg_right (by omega) (Int.le_of_lt (Int.pow_pos (by omega)))
    omega
  · have : 1 * 2 ^ n ≤ x * 2 ^ n :=
      Int.mul_le_mul_of_nonneg_right (by omega) (Int.le_of_lt (Int.pow_pos (by omega)))
    omega

/-- A shift right by the width of the kind leaves the sign. -/
theorem fdiv_two_pow_of_fits (hx : k.Fits x) (hn : k.bits ≤ n) :
    x.fdiv (2 ^ n) = if x < 0 then -1 else 0 := by
  obtain ⟨hlo, hhi⟩ := hx.abs_lt
  have hpow : (2 : Int) ^ k.bits ≤ 2 ^ n := pow_le_pow_right₀ one_le_two hn
  have hpos : (0 : Int) < 2 ^ n := Int.pow_pos (by omega)
  rw [Int.fdiv_eq_ediv_of_nonneg x (Int.le_of_lt hpos)]
  split
  · next hneg => exact Int.ediv_eq_neg_one_of_neg_of_le hneg (by omega)
  · next hnonneg => exact Int.ediv_eq_zero_of_lt (by omega) (by omega)

end IntKind

/-! ## Evaluation in a kind -/

namespace Evaluate

variable {k : IntKind} {x y z : Int}

theorem checked_of_fits (h : k.Fits z) : checked k z = .ok (.integer k z h) := by
  rw [checked, Value.integer?, dif_pos h]
  rfl

theorem checked_of_not_fits (h : ¬ k.Fits z) : checked k z = .error .overflow := by
  rw [checked, Value.integer?, dif_neg h]
  rfl

/-- What is too great for a word is too great for a kind. -/
theorem held_eq_checked {r : Option Word} (h : Word.Computes r z) : held k r = checked k z := by
  rw [Word.Computes] at h
  subst h
  split
  · next hz => rw [held, Option.elim_some, Word.toInt_ofInt hz]
  · next hz => rw [checked_of_not_fits fun hfits => hz hfits.inWord]; rfl

theorem shiftCount_of_neg (hy : Bits.Within 127 y) (h : y < 0) :
    shiftCount (.ofInt y) = .error .invalidShift := by
  rw [shiftCount, Word.toInt_ofInt hy, if_pos h]

theorem shiftCount_of_nonneg (hy : Bits.Within 127 y) (h : ¬ y < 0) :
    shiftCount (.ofInt y) = .ok (min y.toNat (2 ^ 32 - 1)) := by
  have hnat : (Word.ofInt y).toNat = y.toNat := by
    have := hy.2
    rw [Word.ofInt, BitVec.toNat_ofInt, Int.emod_eq_of_lt (by omega) (by omega)]
  rw [shiftCount, Word.toInt_ofInt hy, if_neg h, hnat]

theorem bits_le (k : IntKind) : k.bits ≤ 127 := by cases k <;> decide

/-- Cutting the count does not change the result. -/
theorem shiftLeft_eq_checked (hx : k.Fits x) (n : Nat) :
    shiftLeft k (.ofInt x) (min n (2 ^ 32 - 1)) = some (checked k (x * 2 ^ n)) := by
  unfold shiftLeft
  simp only [Word.ofInt_eq_zero_iff hx.inWord]
  split
  · next hzero => rw [hzero, Int.zero_mul]
  · next hzero =>
    split
    · next hgreat =>
      have hbits : k.bits ≤ n := Nat.le_trans (bits_le k) (Nat.le_trans hgreat (Nat.min_le_left ..))
      rw [checked_of_not_fits (IntKind.not_fits_mul_two_pow hzero hbits)]
    · next hsmall =>
      obtain ⟨hn, hcut⟩ : n < 127 ∧ min n (2 ^ 32 - 1) = n := by omega
      have hback := Word.shiftBack_iff hx.inWord (Nat.le_of_lt hn)
      simp only [hcut, Word.shiftLeft?, Word.shiftRight?, if_pos (Nat.lt_succ_of_lt hn)]
      by_cases hfits : Bits.Within 127 (x * 2 ^ n)
      · have hnumber : (Word.ofInt x <<< n).toInt = x * 2 ^ n := by
          rw [Word.shiftLeft_ofInt, Word.toInt_ofInt hfits]
        simp [hback.mpr hfits, hnumber]
      · have hover := checked_of_not_fits (k := k) fun h => hfits (IntKind.Fits.inWord h)
        simp [mt hback.mp hfits, hover]

theorem shiftRight_eq_checked (hx : k.Fits x) (n : Nat) :
    shiftRight k (.ofInt x) (min n (2 ^ 32 - 1)) = some (checked k (x.fdiv (2 ^ n))) := by
  unfold shiftRight
  split
  · next hgreat =>
    have hbits : k.bits ≤ n := Nat.le_trans (bits_le k) (Nat.le_trans hgreat (Nat.min_le_left ..))
    rw [IntKind.fdiv_two_pow_of_fits hx hbits, Word.toInt_ofInt hx.inWord]
  · next hsmall =>
    obtain ⟨hn, hcut⟩ : n < 128 ∧ min n (2 ^ 32 - 1) = n := by omega
    have hpos : (0 : Int) < 2 ^ n := Int.pow_pos (by decide)
    rw [hcut, Word.shiftRight?, if_pos hn, Int.fdiv_eq_ediv_of_nonneg x (Int.le_of_lt hpos),
      ← Word.toInt_sshiftRight_ofInt hx.inWord]
    rfl

theorem checked_ofInt (hz : k.Fits z) : checked k (Word.ofInt z).toInt = checked k z := by
  rw [Word.toInt_ofInt hz.inWord]

/-- Evaluation is exact arithmetic with a check of the range. The bitwise operators take operands of
one kind, which they never leave. -/
theorem integerBinary_eq_checked {op : BinaryOp} {l : IntKind} (hx : k.Fits x) (hy : l.Fits y)
    (hkind : k = l ∨ op.isShift = true) (h : op.exact x y = some z) :
    integerBinary k x y op = some (checked k z) := by
  cases op with
  | add =>
    obtain rfl := Option.some.inj h
    exact congrArg some (held_eq_checked (Word.computes_add hx.inWord hy.inWord))
  | sub =>
    obtain rfl := Option.some.inj h
    exact congrArg some (held_eq_checked (Word.computes_sub hx.inWord hy.inWord))
  | mul =>
    obtain rfl := Option.some.inj h
    exact congrArg some (held_eq_checked (Word.computes_mul hx.inWord hy.inWord))
  | quo =>
    obtain ⟨hne, hz⟩ := Option.ite_none_left_eq_some.mp h
    obtain rfl := Option.some.inj hz
    have hcomputes := Word.computes_quo hx.within hy.inWord hne
    rw [integerBinary, wordBinary, if_neg (mt (Word.ofInt_eq_zero_iff hy.inWord).mp hne),
      held_eq_checked hcomputes]
  | mod =>
    obtain ⟨hne, hz⟩ := Option.ite_none_left_eq_some.mp h
    obtain rfl := Option.some.inj hz
    have hcomputes := Word.computes_mod hx.within hy.inWord hne
    rw [integerBinary, wordBinary, if_neg (mt (Word.ofInt_eq_zero_iff hy.inWord).mp hne),
      held_eq_checked hcomputes]
  | and =>
    obtain rfl := Option.some.inj h
    obtain rfl : k = l := hkind.resolve_right (by decide)
    rw [integerBinary, wordBinary, Word.ofInt, Word.ofInt, ← Bits.ofInt_land]
    exact congrArg some (checked_ofInt (hx.bitwise hy).1)
  | or =>
    obtain rfl := Option.some.inj h
    obtain rfl : k = l := hkind.resolve_right (by decide)
    rw [integerBinary, wordBinary, Word.ofInt, Word.ofInt, ← Bits.ofInt_lor]
    exact congrArg some (checked_ofInt (hx.bitwise hy).2.1)
  | xor =>
    obtain rfl := Option.some.inj h
    obtain rfl : k = l := hkind.resolve_right (by decide)
    rw [integerBinary, wordBinary, Word.ofInt, Word.ofInt, ← Bits.ofInt_xor]
    exact congrArg some (checked_ofInt (hx.bitwise hy).2.2.1)
  | andNot =>
    obtain rfl := Option.some.inj h
    obtain rfl : k = l := hkind.resolve_right (by decide)
    rw [integerBinary, wordBinary, Word.ofInt, Word.ofInt, ← Bits.ofInt_ldiff]
    exact congrArg some (checked_ofInt (hx.bitwise hy).2.2.2)
  | lsh =>
    obtain ⟨hneg, hz⟩ := Option.ite_none_left_eq_some.mp h
    obtain rfl := Option.some.inj hz
    rw [integerBinary, wordBinary, shiftCount_of_nonneg hy.inWord hneg]
    exact shiftLeft_eq_checked hx y.toNat
  | rsh =>
    obtain ⟨hneg, hz⟩ := Option.ite_none_left_eq_some.mp h
    obtain rfl := Option.some.inj hz
    rw [integerBinary, wordBinary, shiftCount_of_nonneg hy.inWord hneg]
    exact shiftRight_eq_checked hx y.toNat
  | _ => cases h

/-- Without an exact result there is none in a kind either, for one of two reasons. -/
theorem integerBinary_of_exact_eq_none {op : BinaryOp} {l : IntKind} (hy : l.Fits y)
    (hop : op.yieldsBool = false) (h : op.exact x y = none) :
    integerBinary k x y op =
      some (.error (if op.isShift then .invalidShift else .divisionByZero)) := by
  cases op with
  | quo | mod =>
    have hzero : y = 0 := by simpa [BinaryOp.exact] using h
    rw [integerBinary, wordBinary, if_pos ((Word.ofInt_eq_zero_iff hy.inWord).mpr hzero)]
    rfl
  | lsh | rsh =>
    have hneg : y < 0 := by simpa [BinaryOp.exact] using h
    rw [integerBinary, wordBinary, shiftCount_of_neg hy.inWord hneg]
    rfl
  | add | sub | mul | and | or | xor | andNot => cases h
  | _ => cases hop

theorem integerBinary_eq_compare {op : BinaryOp} {truth : Bool} {l : IntKind} (hx : k.Fits x)
    (hy : l.Fits y) (h : op.compare? x y = some truth) :
    integerBinary k x y op = some (.ok (.bool truth)) := by
  have htoInt := And.intro (Word.toInt_ofInt hx.inWord) (Word.toInt_ofInt hy.inWord)
  cases op with
  | lt | le | gt | ge =>
    obtain rfl := Option.some.inj h
    simp only [integerBinary, wordBinary, BitVec.slt, BitVec.sle, htoInt]
  | eq | ne =>
    obtain rfl := Option.some.inj h
    simp [integerBinary, wordBinary, Word.ofInt_inj hx.inWord hy.inWord, bne, BEq.beq]
  | _ => cases h

theorem kind_not_ne (hx : k.Fits x) : ¬ (Value.integer k x hx).kind ≠ .integer k :=
  not_not_intro rfl

theorem apply_binary_integer {op : BinaryOp} {l : IntKind} (hx : k.Fits x) (hy : l.Fits y)
    (h : k = l ∨ op.isShift = true) :
    apply (.integer k) (.binary op) [.integer k x hx, .integer l y hy] =
      settle (.binary op) (.integer k) (integerBinary k x y op) := by
  have hkind : ¬ (if op.isShift then !(Value.integer l y hy).kind.isInteger
      else (Value.integer l y hy).kind ≠ .integer k : Bool) = true := by
    rcases h with rfl | hshift
    · cases op.isShift <;> simp [Value.kind, Kind.isInteger]
    · simp [hshift, Value.kind, Kind.isInteger]
  rw [apply, if_neg (kind_not_ne hx), if_neg hkind, binary, if_pos h]

theorem apply_unary_integer (op : UnaryOp) (hx : k.Fits x) :
    apply (.integer k) (.unary op) [.integer k x hx] =
      settle (.unary op) (.integer k) (integerUnary k x op) := by
  rw [apply, if_neg (kind_not_ne hx), unary]

/-- The number whose bits in `k` are those of `x`, flipped. -/
def flipped (k : IntKind) (x : Int) : Int := if k.signed then x.lnot else k.hi - x

theorem fits_flipped (hx : k.Fits x) : k.Fits (flipped k x) := by
  unfold flipped
  rw [Bits.lnot_eq]
  cases k <;> simp [IntKind.Fits, IntKind.lo, IntKind.hi, IntKind.signed, IntKind.bits] at hx ⊢ <;>
    omega

/-- Without a sign the complement is a difference, which is not checked and never overflows. -/
theorem complement_eq (hx : k.Fits x) :
    complement k (.ofInt x) = some (.ofInt (flipped k x)) := by
  have hfits := fits_flipped hx
  unfold complement flipped at *
  cases hsigned : k.signed with
  | true => exact congrArg some Bits.ofInt_lnot.symm
  | false =>
    have hhi : k.Fits k.hi := by cases k <;> decide
    rw [hsigned] at hfits
    exact (Word.computes_sub hhi.inWord hx.inWord).trans (if_pos hfits.inWord)

theorem integerUnary_bitNot (hx : k.Fits x) :
    integerUnary k x .bitNot = some (checked k (flipped k x)) := by
  rw [integerUnary, wordUnary, complement_eq hx]
  exact congrArg some (checked_ofInt (fits_flipped hx))

/-- The complement in a kind without a sign is the one operation that is not exact: it flips the
bits of the kind and no others. -/
theorem integerUnary_eq_checked {op : UnaryOp} (hx : k.Fits x)
    (hop : op = .bitNot → k.signed = true) (h : op.exact x = some z) :
    integerUnary k x op = some (checked k z) := by
  cases op with
  | neg =>
    obtain rfl := Option.some.inj h
    exact congrArg some (held_eq_checked (Word.computes_neg hx.inWord))
  | bitNot =>
    obtain rfl := Option.some.inj h
    rw [integerUnary_bitNot hx, flipped, if_pos (hop rfl)]
  | not => cases h

end Evaluate

end Lowering
