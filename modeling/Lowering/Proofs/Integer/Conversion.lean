import Mathlib.Data.Int.ModEq
import Lowering.Value.Convert
import Lowering.Proofs.Integer.Word

/-!
# Conversions between integer kinds

A cast to a kind of `w` bits is reduction modulo `2 ^ w` into the range of the kind. The range has
one number of every residue class (`Fits.eq_of_modEq`), so the residue determines the result, and a
cast can be made in several steps as long as the widths do not grow (`wrap_wrap`). Reading the low
bits of a word with or without a sign is the same thing (`wrap_toInt`).

An exact conversion is a cast that happens to keep the number. It is refused exactly if the number
is out of range, and it can be undone. Main statement: `convert_represent_integer`.
-/

namespace Lowering

namespace IntKind

variable {k l : IntKind} {x y : Int}

/-! ## Residues -/

theorem wrap_modEq (k : IntKind) (z : Int) : k.wrap z ≡ z [ZMOD 2 ^ k.bits] :=
  calc
    k.wrap z ≡ k.lo + (z - k.lo) [ZMOD 2 ^ k.bits] := (Int.mod_modEq _ _).add_left k.lo
    _ = z := by omega

/-- Only the residue matters. -/
theorem wrap_congr (h : x ≡ y [ZMOD 2 ^ k.bits]) : k.wrap x = k.wrap y := by
  have hshifted : (x - k.lo) % 2 ^ k.bits = (y - k.lo) % 2 ^ k.bits := h.sub_right k.lo
  rw [wrap, wrap, hshifted]

/-- A kind holds at most one number of a residue class. -/
theorem Fits.eq_of_modEq (hx : k.Fits x) (hy : k.Fits y) (h : x ≡ y [ZMOD 2 ^ k.bits]) : x = y :=
  calc
    x = k.wrap x := (wrap_of_fits hx).symm
    _ = k.wrap y := wrap_congr h
    _ = y := wrap_of_fits hy

/-- A cast to a narrower kind forgets the wider one that came before. -/
theorem wrap_wrap (h : l.bits ≤ k.bits) (z : Int) : l.wrap (k.wrap z) = l.wrap z :=
  wrap_congr ((wrap_modEq k z).of_dvd (pow_dvd_pow 2 h))

/-! ## Low bits -/

/-- The low bits of a word, read as a number of the kind. -/
def cut (k : IntKind) (w : Word) : Int :=
  if k.signed then (w.setWidth k.bits).toInt else (w.setWidth k.bits).toNat

theorem fits_cut (k : IntKind) (w : Word) : k.Fits (k.cut w) := by
  unfold cut Fits lo hi
  split
  · exact ⟨BitVec.le_toInt _, Int.le_sub_one_of_lt BitVec.toInt_lt⟩
  · have hlt : (w.setWidth k.bits).toNat < 2 ^ k.bits := BitVec.isLt _
    have hpow : ((2 ^ k.bits : Nat) : Int) = 2 ^ k.bits := Int.natCast_pow 2 k.bits
    omega

theorem toInt_modEq_toNat (w : Word) (h : k.bits ≤ 128) : w.toInt ≡ w.toNat [ZMOD 2 ^ k.bits] := by
  have hword : w.toInt ≡ w.toNat [ZMOD 2 ^ 128] := by
    rw [BitVec.toInt_eq_toNat_bmod]
    exact Int.bmod_emod
  exact hword.of_dvd (pow_dvd_pow 2 h)

theorem cut_modEq (k : IntKind) (w : Word) : k.cut w ≡ w.toInt [ZMOD 2 ^ k.bits] := by
  have hpow : ((2 ^ k.bits : Nat) : Int) = 2 ^ k.bits := Int.natCast_pow 2 k.bits
  have hbits : k.bits ≤ 128 := by cases k <;> decide
  refine Int.ModEq.trans ?_ (toInt_modEq_toNat w hbits).symm
  unfold cut
  split
  · rw [BitVec.toInt_setWidth, ← hpow]
    exact Int.bmod_emod
  · rw [BitVec.toNat_setWidth, Int.natCast_emod, hpow]
    exact Int.mod_modEq _ _

/-- Reducing the number of a word is cutting the word. -/
theorem wrap_toInt (k : IntKind) (w : Word) : k.wrap w.toInt = k.cut w :=
  (fits_wrap k _).eq_of_modEq (fits_cut k w) ((wrap_modEq k _).trans (cut_modEq k w).symm)

end IntKind

namespace Value

variable {v u : Value} {k l : IntKind} {z : Int}

/-! ## Casts -/

theorem wrapped_of_fits (hz : k.Fits z) : wrapped k z = integer k z hz := by
  simp only [wrapped, IntKind.wrap_of_fits hz]

/-- An integer is cast by wrapping; leaving it alone when the kind is already right is no
exception. -/
theorem convert_integer (hv : v.toInt? = some z) (k : IntKind) :
    v.convert (.integer k) = some (wrapped k z) := by
  cases v with
  | integer l z' hz =>
    obtain rfl := Option.some.inj hv
    unfold convert
    split
    · next hkind =>
      obtain rfl : k = l := Kind.integer.inj (hkind.resolve_left (by simp))
      rw [wrapped_of_fits hz]
    · rfl
  | _ => cases hv

theorem exists_integer_of_toInt? (hv : v.toInt? = some z) :
    ∃ l, ∃ hz : l.Fits z, v = .integer l z hz := by
  cases v with
  | integer l z' hz =>
    obtain rfl := Option.some.inj hv
    exact ⟨l, hz, rfl⟩
  | _ => cases hv

/-! ## Exact conversions -/

theorem represent_of_fits (hv : v.toInt? = some z) (hz : k.Fits z) :
    v.represent (.integer k) = .ok (.integer k z hz) := by
  cases v with
  | integer l z' hz' =>
    obtain rfl := Option.some.inj hv
    unfold represent
    split
    · next hkind =>
      obtain rfl : k = l := Kind.integer.inj (hkind.resolve_left (by simp))
      rfl
    · simp only [exactInt, toInt?, integer?, dif_pos hz]
      rfl
  | _ => cases hv

theorem represent_of_not_fits (hv : v.toInt? = some z) (hz : ¬ k.Fits z) :
    v.represent (.integer k) = .error .overflow := by
  cases v with
  | integer l z' hz' =>
    obtain rfl := Option.some.inj hv
    have hkind : ¬ (Kind.integer k = .interface ∨ Kind.integer k = .integer l) := by
      rintro (h | h)
      · cases h
      · obtain rfl := Kind.integer.inj h
        exact hz hz'
    rw [represent, kind, if_neg hkind]
    simp only [exactInt, toInt?, integer?, dif_neg hz]
    rfl
  | _ => cases hv

theorem represent_eq_ok_iff (hv : v.toInt? = some z) :
    v.represent (.integer k) = .ok u ↔
      v.convert (.integer k) = some u ∧ u.toInt? = some z := by
  rw [convert_integer hv, Option.some.injEq]
  by_cases hz : k.Fits z
  · rw [represent_of_fits hv hz, wrapped_of_fits hz, Except.ok.injEq]
    constructor
    · rintro rfl
      exact ⟨rfl, rfl⟩
    · rintro ⟨rfl, -⟩
      rfl
  · rw [represent_of_not_fits hv hz]
    constructor
    · intro h
      cases h
    · rintro ⟨rfl, hsame⟩
      -- A wrapped number is in range, so one that stays the same was.
      have hwrap : k.wrap z = z := Option.some.inj hsame
      exact absurd (hwrap ▸ k.fits_wrap z) hz

theorem represent_back (hv : v.toInt? = some z) (h : v.represent (.integer k) = .ok u) :
    u.represent v.kind = .ok v := by
  obtain ⟨-, hu⟩ := (represent_eq_ok_iff hv).mp h
  obtain ⟨l, hz, rfl⟩ := exists_integer_of_toInt? hv
  exact represent_of_fits hu hz

/-! ## Both conversions -/

/-- **A cast reduces modulo the width, and an exact conversion is a cast that keeps the number.**
Let `v` be a value of the integer `z`, of any kind.

* A cast to `k` gives the one number of `k` that is congruent to `z` modulo `2 ^ k.bits`. It is what
  the low bits of the word of `z` say.
* A cast to `k` makes no difference to a later cast to a kind that is not wider.
* An exact conversion to `k` gives what the cast gives if this is `z` again, and overflows
  otherwise.
* What it gives converts back to `v`. -/
theorem convert_represent_integer (hv : v.toInt? = some z) (k l : IntKind) :
    (∃ r, ∃ hr : k.Fits r, v.convert (.integer k) = some (.integer k r hr) ∧
      r ≡ z [ZMOD 2 ^ k.bits] ∧ (∀ s, k.Fits s → s ≡ z [ZMOD 2 ^ k.bits] → s = r) ∧
      r = k.cut (.ofInt z)) ∧
    (l.bits ≤ k.bits →
      (v.convert (.integer k)).bind (·.convert (.integer l)) = v.convert (.integer l)) ∧
    (∀ u, v.represent (.integer k) = .ok u ↔
      v.convert (.integer k) = some u ∧ u.toInt? = v.toInt?) ∧
    ((¬ ∃ u, v.convert (.integer k) = some u ∧ u.toInt? = v.toInt?) →
      v.represent (.integer k) = .error .overflow) ∧
    ∀ u, v.represent (.integer k) = .ok u → u.represent v.kind = .ok v := by
  refine ⟨⟨k.wrap z, k.fits_wrap z, convert_integer hv k, k.wrap_modEq z, ?_, ?_⟩, ?_, ?_, ?_, ?_⟩
  · intro s hs hmod
    exact hs.eq_of_modEq (k.fits_wrap z) (hmod.trans (k.wrap_modEq z).symm)
  · obtain ⟨l, hz, -⟩ := exists_integer_of_toInt? hv
    rw [← IntKind.wrap_toInt, Word.toInt_ofInt hz.inWord]
  · intro hbits
    have hcast : (wrapped k z).convert (.integer l) = some (wrapped l (k.wrap z)) :=
      convert_integer rfl l
    rw [convert_integer hv, convert_integer hv, Option.bind_some, hcast]
    simp only [wrapped, IntKind.wrap_wrap hbits]
  · intro u
    rw [hv, represent_eq_ok_iff hv]
  · intro hnone
    apply represent_of_not_fits hv
    intro hz
    exact hnone ⟨_, (represent_eq_ok_iff hv).mp (represent_of_fits hv hz) |>.1, hv.symm⟩
  · intro u hu
    exact represent_back hv hu

/-- A negative number loses its sign on the way to 16 bits. What is left of it there is also left of
the number itself in 8 bits. -/
theorem convert_represent_signLost :
    ∃ (hz : IntKind.int32.Fits (-200)) (hr : IntKind.uint16.Fits 65336),
      let v := Value.integer .int32 (-200) hz
      v.toInt? = some (-200) ∧
      v.convert (.integer .uint16) = some (.integer .uint16 65336 hr) ∧
      (v.convert (.integer .uint16)).bind (·.convert (.integer .int8)) =
        v.convert (.integer .int8) ∧
      v.represent (.integer .uint16) = .error .overflow := by
  refine ⟨by decide, by decide, rfl, ?_⟩
  obtain ⟨⟨r, hr, hconvert, -, hunique, -⟩, htwice, -, hoverflow, -⟩ :=
    convert_represent_integer (v := .integer .int32 (-200) (by decide)) rfl .uint16 .int8
  obtain rfl : 65336 = r := hunique 65336 (by decide) (by decide)
  refine ⟨hconvert, htwice (by decide), hoverflow ?_⟩
  rintro ⟨u, hu, hsame⟩
  obtain rfl := Option.some.inj (hconvert.symm.trans hu)
  cases hsame

end Value

end Lowering
