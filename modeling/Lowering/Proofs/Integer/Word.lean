import Mathlib.Data.Int.Bitwise
import Lowering.Integer.Kind
import Lowering.Integer.Word

/-!
# Words compute exactly

An operation on the words of two integers results in the word of the exact result, and has no result
exactly if this is no word: `Computes`. The number of a word is `z` itself as long as `z` is in the
range of words (`toInt_ofInt`), and the numbers of every kind are (`IntKind.Fits.inWord`).

Bitwise operators act bit by bit on words of any width, so the words may be cut to a width before or
after (`ofInt_land` and its companions). They never leave the range of a kind (`Fits.land`).
-/

namespace Lowering

/-! ## Bits of integers -/

namespace Bits

variable {w : Nat} {x y : Int}

/-- The bits of a word are the first bits of the number in two's complement. -/
theorem getLsbD_ofInt (w : Nat) (z : Int) (i : Nat) :
    (BitVec.ofInt w z).getLsbD i = (decide (i < w) && z.testBit i) := by
  cases z with
  | ofNat m => exact BitVec.getLsbD_ofNat w m i
  | negSucc m =>
    rw [BitVec.ofInt_negSucc_eq_not_ofNat, BitVec.getLsbD_not, BitVec.getLsbD_ofNat]
    show (decide (i < w) && !(decide (i < w) && m.testBit i)) = (decide (i < w) && !m.testBit i)
    cases decide (i < w) <;> rfl

/-- Integers that agree on their low bits have the same word. -/
theorem ofInt_eq_of_testBit {v : BitVec w} {z : Int}
    (h : ∀ i, i < w → z.testBit i = v.getLsbD i) : BitVec.ofInt w z = v := by
  apply BitVec.eq_of_getLsbD_eq
  intro i hi
  rw [getLsbD_ofInt, decide_eq_true hi, Bool.true_and, h i hi]

theorem getLsbD_ofInt_of_lt {i : Nat} (hi : i < w) :
    (BitVec.ofInt w x).getLsbD i = x.testBit i := by
  rw [getLsbD_ofInt, decide_eq_true hi, Bool.true_and]

/-- Operations on bits are the same for words and numbers, as they are done bit by bit. The lemmas
below say it for the others. -/
theorem ofInt_land : BitVec.ofInt w (x.land y) = BitVec.ofInt w x &&& BitVec.ofInt w y := by
  apply ofInt_eq_of_testBit
  intro i hi
  rw [BitVec.getLsbD_and, getLsbD_ofInt_of_lt hi, getLsbD_ofInt_of_lt hi, Int.testBit_land]

theorem ofInt_lor : BitVec.ofInt w (x.lor y) = BitVec.ofInt w x ||| BitVec.ofInt w y := by
  apply ofInt_eq_of_testBit
  intro i hi
  rw [BitVec.getLsbD_or, getLsbD_ofInt_of_lt hi, getLsbD_ofInt_of_lt hi, Int.testBit_lor]

theorem ofInt_xor : BitVec.ofInt w (x.xor y) = BitVec.ofInt w x ^^^ BitVec.ofInt w y := by
  apply ofInt_eq_of_testBit
  intro i hi
  rw [BitVec.getLsbD_xor, getLsbD_ofInt_of_lt hi, getLsbD_ofInt_of_lt hi, Int.testBit_lxor]

theorem ofInt_ldiff : BitVec.ofInt w (x.ldiff y) = BitVec.ofInt w x &&& ~~~BitVec.ofInt w y := by
  apply ofInt_eq_of_testBit
  intro i hi
  rw [BitVec.getLsbD_and, BitVec.getLsbD_not, getLsbD_ofInt_of_lt hi, getLsbD_ofInt_of_lt hi,
    Int.testBit_ldiff, decide_eq_true hi, Bool.true_and]

theorem ofInt_lnot : BitVec.ofInt w x.lnot = ~~~BitVec.ofInt w x := by
  apply ofInt_eq_of_testBit
  intro i hi
  rw [BitVec.getLsbD_not, getLsbD_ofInt_of_lt hi, Int.testBit_lnot, decide_eq_true hi,
    Bool.true_and]

/-- The complement of a number in two's complement. -/
theorem lnot_eq (x : Int) : x.lnot = -x - 1 := by
  cases x with
  | ofNat m =>
    show Int.negSucc m = -(m : Int) - 1
    omega
  | negSucc m =>
    show (m : Int) = -(Int.negSucc m) - 1
    omega

/-- The number is one of `p` bits and a sign. -/
def Within (p : Nat) (z : Int) : Prop := -2 ^ p ≤ z ∧ z < 2 ^ p

instance (p : Nat) (z : Int) : Decidable (Within p z) := inferInstanceAs (Decidable (_ ∧ _))

variable {p m : Nat}

theorem within_ofNat : Within p (Int.ofNat m) ↔ m < 2 ^ p := by
  have hpow : ((2 ^ p : Nat) : Int) = 2 ^ p := Int.natCast_pow 2 p
  simp only [Within, Int.ofNat_eq_natCast]
  omega

theorem within_negSucc : Within p (Int.negSucc m) ↔ m < 2 ^ p := by
  have hpow : ((2 ^ p : Nat) : Int) = 2 ^ p := Int.natCast_pow 2 p
  simp only [Within]
  omega

theorem ldiff_lt {n : Nat} (hm : m < 2 ^ p) (hn : n < 2 ^ p) : m.ldiff n < 2 ^ p :=
  Nat.bitwise_lt_two_pow hm hn

/-- Bitwise operators need no more bits than their operands. -/
theorem Within.bitwise (hx : Within p x) (hy : Within p y) :
    Within p (x.land y) ∧ Within p (x.lor y) ∧ Within p (x.xor y) ∧ Within p (x.ldiff y) := by
  cases x with
  | ofNat m =>
    cases y with
    | ofNat n =>
      have hm := within_ofNat.mp hx
      have hn := within_ofNat.mp hy
      exact ⟨within_ofNat.mpr (Nat.and_lt_two_pow m hn), within_ofNat.mpr (Nat.or_lt_two_pow hm hn),
        within_ofNat.mpr (Nat.xor_lt_two_pow hm hn), within_ofNat.mpr (ldiff_lt hm hn)⟩
    | negSucc n =>
      have hm := within_ofNat.mp hx
      have hn := within_negSucc.mp hy
      exact ⟨within_ofNat.mpr (ldiff_lt hm hn), within_negSucc.mpr (ldiff_lt hn hm),
        within_negSucc.mpr (Nat.xor_lt_two_pow hm hn), within_ofNat.mpr (Nat.and_lt_two_pow m hn)⟩
  | negSucc m =>
    cases y with
    | ofNat n =>
      have hm := within_negSucc.mp hx
      have hn := within_ofNat.mp hy
      exact ⟨within_ofNat.mpr (ldiff_lt hn hm), within_negSucc.mpr (ldiff_lt hm hn),
        within_negSucc.mpr (Nat.xor_lt_two_pow hm hn), within_negSucc.mpr (Nat.or_lt_two_pow hm hn)⟩
    | negSucc n =>
      have hm := within_negSucc.mp hx
      have hn := within_negSucc.mp hy
      exact ⟨within_negSucc.mpr (Nat.or_lt_two_pow hm hn),
        within_negSucc.mpr (Nat.and_lt_two_pow m hn),
        within_ofNat.mpr (Nat.xor_lt_two_pow hm hn), within_ofNat.mpr (ldiff_lt hn hm)⟩

/-- Bitwise operators do not make a sign. -/
theorem bitwise_nonneg (hx : 0 ≤ x) (hy : 0 ≤ y) :
    0 ≤ x.land y ∧ 0 ≤ x.lor y ∧ 0 ≤ x.xor y ∧ 0 ≤ x.ldiff y := by
  obtain ⟨m, rfl⟩ := Int.eq_ofNat_of_zero_le hx
  obtain ⟨n, rfl⟩ := Int.eq_ofNat_of_zero_le hy
  exact ⟨Int.natCast_nonneg _, Int.natCast_nonneg _, Int.natCast_nonneg _, Int.natCast_nonneg _⟩

end Bits

/-! ## Numbers of a kind -/

namespace IntKind

open Bits

variable {k : IntKind} {x y z : Int}

/-- The number of bits beside the sign. -/
def magnitude (k : IntKind) : Nat := if k.signed then k.bits - 1 else k.bits

/-- The range of a kind is symmetric up to one number, or cut off at zero. -/
theorem fits_iff_within : k.Fits z ↔ Within k.magnitude z ∧ (k.signed = false → 0 ≤ z) := by
  cases k <;> simp [Fits, Within, magnitude, lo, hi, signed, bits] <;> omega

/-- Operations on bits do not leave a range. -/
theorem Fits.bitwise (hx : k.Fits x) (hy : k.Fits y) :
    k.Fits (x.land y) ∧ k.Fits (x.lor y) ∧ k.Fits (x.xor y) ∧ k.Fits (x.ldiff y) := by
  rw [fits_iff_within] at hx hy
  simp only [fits_iff_within]
  obtain ⟨hand, hor, hxor, hdiff⟩ := hx.1.bitwise hy.1
  have hsign := fun h => bitwise_nonneg (hx.2 h) (hy.2 h)
  exact ⟨⟨hand, fun h => (hsign h).1⟩, ⟨hor, fun h => (hsign h).2.1⟩,
    ⟨hxor, fun h => (hsign h).2.2.1⟩, hdiff, fun h => (hsign h).2.2.2⟩

/-- Half of a word is enough for every number. -/
theorem Fits.within (h : k.Fits z) : Within 64 z := by
  cases k <;> simp [Fits, Within, lo, hi, signed, bits] at h ⊢ <;> omega

/-- Every kind fits in a word, with room to spare. -/
theorem Fits.inWord (h : k.Fits z) : Within 127 z := by
  have h := h.within
  simp only [Within] at h ⊢
  omega

end IntKind

/-! ## Operations on words -/

namespace Word

open Bits

variable {x y z : Int} {w : Word} {n : Nat}

/-- A number in range is kept by a word. -/
theorem toInt_ofInt (h : Within 127 z) : (ofInt z).toInt = z :=
  BitVec.toInt_ofInt_eq_self (by decide) h.1 h.2

theorem ofInt_toInt (w : Word) : ofInt w.toInt = w := BitVec.ofInt_toInt

theorem within_toInt (w : Word) : Within 127 w.toInt := ⟨BitVec.le_toInt w, BitVec.toInt_lt⟩

/-- Different numbers in range are different words. -/
theorem ofInt_inj (hx : Within 127 x) (hy : Within 127 y) : ofInt x = ofInt y ↔ x = y := by
  rw [← BitVec.toInt_inj, toInt_ofInt hx, toInt_ofInt hy]

/-- The operation results in the word of `z`; if there is none, it has no result. -/
def Computes (r : Option Word) (z : Int) : Prop := r = if Within 127 z then some (ofInt z) else none

theorem computes_some (h : w.toInt = z) : Computes (some w) z := by
  subst h
  rw [Computes, if_pos (within_toInt w), ofInt_toInt]

/-- An operation that first asks whether it will overflow. -/
theorem computes_ite {overflow : Bool} (hok : ¬ overflow = true → w.toInt = z)
    (hno : overflow = true → ¬ Within 127 z) :
    Computes (if overflow then none else some w) z := by
  cases overflow with
  | false => exact computes_some (hok (by decide))
  | true => exact (if_neg (hno rfl)).symm

/-- An operation on words gives the exact result or none, and so do the operations below. -/
theorem computes_neg (hx : Within 127 x) : Computes (ofInt x).neg? (-x) := by
  refine computes_ite (fun h => ?_) fun h => ?_
  · rw [BitVec.toInt_neg_of_not_negOverflow h, toInt_ofInt hx]
  · rw [BitVec.negOverflow, toInt_ofInt hx, beq_iff_eq] at h
    subst h
    decide

theorem computes_add (hx : Within 127 x) (hy : Within 127 y) :
    Computes ((ofInt x).add? (ofInt y)) (x + y) := by
  refine computes_ite (fun h => ?_) fun h => ?_
  · rw [BitVec.toInt_add_of_not_saddOverflow h, toInt_ofInt hx, toInt_ofInt hy]
  · simp only [BitVec.saddOverflow, toInt_ofInt hx, toInt_ofInt hy, Bool.or_eq_true,
      decide_eq_true_eq] at h
    simp only [Within]
    omega

theorem computes_sub (hx : Within 127 x) (hy : Within 127 y) :
    Computes ((ofInt x).sub? (ofInt y)) (x - y) := by
  refine computes_ite (fun h => ?_) fun h => ?_
  · rw [BitVec.toInt_sub_of_not_ssubOverflow h, toInt_ofInt hx, toInt_ofInt hy]
  · simp only [BitVec.ssubOverflow, toInt_ofInt hx, toInt_ofInt hy, Bool.or_eq_true,
      decide_eq_true_eq] at h
    simp only [Within]
    omega

theorem computes_mul (hx : Within 127 x) (hy : Within 127 y) :
    Computes ((ofInt x).mul? (ofInt y)) (x * y) := by
  refine computes_ite (fun h => ?_) fun h => ?_
  · rw [BitVec.toInt_mul_of_not_smulOverflow h, toInt_ofInt hx, toInt_ofInt hy]
  · simp only [BitVec.smulOverflow, toInt_ofInt hx, toInt_ofInt hy, Bool.or_eq_true,
      decide_eq_true_eq] at h
    simp only [Within]
    omega

theorem ofInt_eq_zero_iff (hy : Within 127 y) : ofInt y = 0#128 ↔ y = 0 :=
  ofInt_inj (y := 0) hy (by decide)

/-- The least word is no number of a kind. -/
theorem ofInt_ne_intMin (hx : Within 64 x) : ofInt x ≠ BitVec.intMin 128 := by
  intro h
  have hleast : ofInt x = ofInt (-2 ^ 127) := h
  have hwithin : Within 127 x := by
    simp only [Within] at hx ⊢
    omega
  rw [ofInt_inj hwithin (by decide)] at hleast
  subst hleast
  exact absurd hx (by decide)

/-- Division cannot overflow: only the least word could, and it is far out of range. -/
theorem divisionFails_eq_false (hx : Within 64 x) (hy : Within 127 y) (h : y ≠ 0) :
    (ofInt x).divisionFails (ofInt y) = false := by
  have hzero : ofInt y ≠ 0#128 := mt (ofInt_eq_zero_iff hy).mp h
  simp [divisionFails, hzero, ofInt_ne_intMin hx]

/-- Division rounds towards zero. -/
theorem computes_quo (hx : Within 64 x) (hy : Within 127 y) (h : y ≠ 0) :
    Computes ((ofInt x).quo? (ofInt y)) (x.tdiv y) := by
  have hx' : Within 127 x := by
    simp only [Within] at hx ⊢
    omega
  rw [quo?, divisionFails_eq_false hx hy h]
  refine computes_some ?_
  rw [BitVec.toInt_sdiv_of_ne_or_ne _ _ (.inl (ofInt_ne_intMin hx)), toInt_ofInt hx',
    toInt_ofInt hy]

/-- The remainder has the sign of the dividend. -/
theorem computes_mod (hx : Within 64 x) (hy : Within 127 y) (h : y ≠ 0) :
    Computes ((ofInt x).mod? (ofInt y)) (x.tmod y) := by
  have hx' : Within 127 x := by
    simp only [Within] at hx ⊢
    omega
  rw [mod?, divisionFails_eq_false hx hy h]
  refine computes_some ?_
  rw [BitVec.toInt_srem, toInt_ofInt hx', toInt_ofInt hy]

/-! ## Shifts -/

/-- A shift to the left loses bits, as the product does when it is put into a word. -/
theorem shiftLeft_ofInt (x : Int) (n : Nat) : ofInt x <<< n = ofInt (x * 2 ^ n) := by
  have hpow : BitVec.twoPow 128 n = BitVec.ofInt 128 (2 ^ n) := by
    have hcast : (2 : Int) ^ n = ((2 ^ n : Nat) : Int) := (Int.natCast_pow 2 n).symm
    rw [hcast, BitVec.ofInt_natCast]
    exact BitVec.eq_of_toNat_eq (by rw [BitVec.toNat_twoPow, BitVec.toNat_ofNat])
  rw [BitVec.shiftLeft_eq_mul_twoPow, hpow, ofInt, ofInt, BitVec.ofInt_mul]

/-- A shift to the right rounds down. -/
theorem toInt_sshiftRight_ofInt (hx : Within 127 x) (n : Nat) :
    ((ofInt x).sshiftRight n).toInt = x / 2 ^ n := by
  rw [BitVec.toInt_sshiftRight, toInt_ofInt hx, Int.shiftRight_eq_div_pow, Int.natCast_pow]
  rfl

/-- What was shifted up comes back exactly if no bit was lost. -/
theorem shiftBack_iff (hx : Within 127 x) (hn : n ≤ 127) :
    (ofInt x <<< n).sshiftRight n = ofInt x ↔ Within 127 (x * 2 ^ n) := by
  have hpos : (0 : Int) < 2 ^ n := Int.pow_pos (by decide)
  rw [shiftLeft_ofInt]
  constructor
  · intro hback
    -- The number of the shifted word differs from the product by a multiple of the shift.
    have hdiv : (ofInt (x * 2 ^ n)).toInt / 2 ^ n = x := by
      have h := congrArg BitVec.toInt hback
      rwa [← ofInt_toInt (ofInt (x * 2 ^ n)), toInt_sshiftRight_ofInt (within_toInt _),
        toInt_ofInt hx] at h
    have hdvd : (2 ^ n : Int) ∣ (ofInt (x * 2 ^ n)).toInt := by
      have hword : ((2 ^ n : Nat) : Int) ∣ ((2 ^ 128 : Nat) : Int) :=
        Int.natCast_dvd_natCast.mpr (Nat.pow_dvd_pow 2 (Nat.le_succ_of_le hn))
      rw [Int.natCast_pow] at hword
      rw [ofInt, BitVec.toInt_ofInt, Int.bmod_eq_self_sub_mul_bdiv]
      exact Int.dvd_sub (Int.dvd_mul_left _ _) (Int.dvd_trans hword (Int.dvd_mul_right _ _))
    have hexact : x * 2 ^ n = (ofInt (x * 2 ^ n)).toInt := by
      rw [← Int.ediv_mul_cancel hdvd, hdiv]
    rw [hexact]
    exact within_toInt _
  · intro hfits
    apply BitVec.eq_of_toInt_eq
    rw [toInt_sshiftRight_ofInt hfits, toInt_ofInt hx, Int.mul_ediv_cancel _ (Int.ne_of_gt hpos)]

end Word

end Lowering
