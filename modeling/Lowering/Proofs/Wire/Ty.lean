import Lowering.Proofs.Integer.Conversion
import Lowering.Proofs.Wire.Encoding
import Lowering.Wire.Ty

/-!
# Values and types on the wire

Values and types are read back as they were written, provided that their numbers fit into the
widths of the format: `encodes_readValue` and `encodes_readTy`. Types nest to any depth. Reading one
within `n` levels is good for `n` bytes, as each level begins with a byte of its own; so a reader
that takes the number of bytes left as its bound never stops short.
-/

namespace Lowering.Wire

variable {n : Nat}

/-! ## Kinds and operators -/

theorem encodes_readKind (k : Kind) : Encodes n readKind k (putKind k) := by
  have hrank : fitsNat 32 k.rank = true := by
    cases k with
    | integer k => cases k <;> decide
    | float p => cases p <;> decide
    | complex p => cases p <;> decide
    | _ => decide
  refine (encodes_readIndex hrank).last ?_
  rw [Kind.ofRank?_rank]

theorem encodes_readOperator (op : Operator) : Encodes n readOperator op (putOperator op) := by
  refine encodes_readOneOf ?_ (by decide)
  cases op with
  | unary op => cases op <;> decide
  | binary op => cases op <;> decide

theorem encodes_readAddressOp (op : AddressOp) :
    Encodes n readAddressOp op (putAddressOp op) :=
  encodes_readOneOf (by cases op <;> decide) (by decide)

theorem encodes_readBuiltin (b : Builtin) : Encodes n readBuiltin b (putBuiltin b) :=
  encodes_readOneOf (by cases b <;> decide) (by decide)

/-! ## Values -/

/-- A small integer is written as one byte, which holds it up to its sign. -/
theorem wrapped_emod {k : IntKind} {z : Int} (hk : k.bits = 8) :
    Value.wrapped k (z % 256) = Value.wrapped k z := by
  have hmod : z % 256 ≡ z [ZMOD 2 ^ k.bits] := hk ▸ Int.mod_modEq z 256
  simp only [Value.wrapped, IntKind.wrap_congr hmod]

theorem encodes_readInteger {k : IntKind} {z : Int} (hz : k.Fits z) :
    Encodes n (readInteger k) (.integer k z hz) (putInteger k z) := by
  unfold readInteger putInteger
  split
  · next hk =>
    have hbyte : ((z % 256).toNat : Int) = z % 256 := by omega
    refine (encodes_readWord (by omega)).last ?_
    rw [hbyte, wrapped_emod hk, Value.wrapped_of_fits hz]
  · next hk =>
    split
    · next hsigned =>
      have hfits : fitsInt k.bits z = true := by
        simp only [IntKind.Fits, IntKind.lo, IntKind.hi, hsigned, if_true] at hz
        simp only [fitsInt, Bool.and_eq_true, decide_eq_true_eq]
        omega
      refine (encodes_readInt (by cases k <;> decide) hfits).last ?_
      rw [Value.wrapped_of_fits hz]
    · next hunsigned =>
      have hpos : ((z.toNat : Nat) : Int) = z := by
        have hlo := hz.1
        rw [IntKind.lo, if_neg hunsigned] at hlo
        omega
      have hfits : fitsNat k.bits z.toNat = true := by
        cases k <;> simp [IntKind.signed] at hunsigned <;>
          simp [IntKind.Fits, IntKind.lo, IntKind.hi, IntKind.bits, IntKind.signed,
            fitsNat] at hz ⊢ <;>
          omega
      refine (encodes_readNat (by cases k <;> decide) hfits).last ?_
      rw [hpos, Value.wrapped_of_fits hz]

theorem encodes_readBinary {p : Precision} (x : Binary p) :
    Encodes n (readBinary p) x (putBinary x) := by
  have hlt : x.bits.toNat < 256 ^ wordBytes p := by
    have := x.bits.isLt
    cases p <;> exact this
  refine (encodes_readWord hlt).last ?_
  rw [BitVec.ofNat_toNat, BitVec.setWidth_eq]

/-- A value that can be written: a text may be too long. -/
def fitsValue : Value → Bool
  | .string s => fitsString s
  | _ => true

/-- By the kind of the value, which is written first. -/
theorem encodes_readValue {v : Value} (hv : fitsValue v = true) :
    Encodes n readValue v (putValue v) := by
  cases v with
  | bool b => exact (encodes_readIndex (by decide)).bind ((encodes_readBool b).map Value.bool)
  | integer k z hz =>
    have h : Encodes n (readInteger k) _ _ := encodes_readInteger hz
    cases k <;> exact (encodes_readIndex (by decide)).bind h
  | float p x =>
    have h := (encodes_readBinary (n := n) x).map (Value.float p)
    cases p <;> exact (encodes_readIndex (by decide)).bind h
  | complex p re im =>
    have h : Encodes n (do
        let re ← readBinary p
        return Value.complex p re (← readBinary p))
        (.complex p re im) (putBinary re ++ putBinary im) :=
      (encodes_readBinary re).bind ((encodes_readBinary im).map _)
    rw [putValue, List.append_assoc]
    cases p <;> exact (encodes_readIndex (by decide)).bind h
  | string s =>
    exact (encodes_readIndex (by decide)).bind ((encodes_readString hv).map Value.string)

/-! ## Types -/

mutual

/-- A type that can be written: names, lengths and numbers of members may be too large. -/
def fitsTy : Ty → Bool
  | .basic _ | .interface => true
  | .named pkgPath name t => fitsString pkgPath && fitsString name && fitsTy t
  | .array len t => fitsNat 64 len && fitsTy t
  | .slice t | .ptr t | .chan t => fitsTy t
  | .map k t => fitsTy k && fitsTy t
  | .func ps rs _ =>
    fitsNat 64 ps.length && fitsTys ps && fitsNat 64 rs.length && fitsTys rs
  | .struct fs => fitsNat 64 fs.length && fitsFields fs

def fitsTys : List Ty → Bool
  | [] => true
  | t :: ts => fitsTy t && fitsTys ts

def fitsFields : List (String × Ty) → Bool
  | [] => true
  | (name, t) :: fs => fitsString name && fitsTy t && fitsFields fs

end

/-- The number of a constructor in front of its parts. The bound is one higher than that of the
parts, as the number takes a byte. -/
theorem Encodes.behind {α : Type} {next : Nat → Reader α} {i : Nat} {a : α} {ys : List UInt8}
    (h : Encodes n (next i) a ys) (hi : fitsNat 32 i = true) :
    Encodes (n + 1) (readIndex >>= next) a (putIndex i ++ ys) := by
  refine (encodes_readIndex hi).bind_sub (h.mono ?_)
  have := List.length_pos_iff.mpr (putNat_ne_nil i)
  show n + 1 - (putNat i).length ≤ n
  omega

theorem putTy_ne_nil (t : Ty) : putTy t ≠ [] := by
  cases t <;> simp [putTy, putIndex, putNat_ne_nil]

/-- Without any level left only nothing can be read. -/
theorem encodes_readTyWithin_zero (t : Ty) : Encodes 0 (readTyWithin 0) t (putTy t) where
  whole hlen := absurd (List.length_eq_zero_iff.mp (Nat.le_zero.mp hlen)) (putTy_ne_nil t)
  cut _ _ _ _ := rfl

mutual

/-- By recursion on the type, together with the lists of types in it. Each level takes a byte at
least, so the depth of the reader suffices. -/
theorem encodes_readTyWithin : ∀ (t : Ty) (n : Nat), fitsTy t = true →
    Encodes n (readTyWithin n) t (putTy t)
  | t, 0, _ => encodes_readTyWithin_zero t
  | .basic k, n + 1, _ => ((encodes_readKind k).map Ty.basic).behind (by decide)
  | .named pkgPath name t, n + 1, h => by
    simp only [fitsTy, Bool.and_eq_true] at h
    rw [putTy, List.append_assoc, List.append_assoc]
    refine Encodes.behind ?_ (by decide)
    refine (encodes_readString h.1.1).bind ((encodes_readString h.1.2).bind ?_)
    exact (encodes_readTyWithin t n h.2).map (Ty.named pkgPath name)
  | .array len t, n + 1, h => by
    simp only [fitsTy, Bool.and_eq_true] at h
    rw [putTy, List.append_assoc]
    refine Encodes.behind ?_ (by decide)
    refine (encodes_readNat (by decide) h.1).bind ?_
    exact (encodes_readTyWithin t n h.2).map (Ty.array len)
  | .slice t, n + 1, h =>
    ((encodes_readTyWithin t n (by simpa only [fitsTy] using h)).map Ty.slice).behind (by decide)
  | .map k t, n + 1, h => by
    simp only [fitsTy, Bool.and_eq_true] at h
    rw [putTy, List.append_assoc]
    refine Encodes.behind ?_ (by decide)
    refine (encodes_readTyWithin k n h.1).bind ?_
    exact (encodes_readTyWithin t n h.2).map (Ty.map k)
  | .ptr t, n + 1, h =>
    ((encodes_readTyWithin t n (by simpa only [fitsTy] using h)).map Ty.ptr).behind (by decide)
  | .chan t, n + 1, h =>
    ((encodes_readTyWithin t n (by simpa only [fitsTy] using h)).map Ty.chan).behind (by decide)
  | .func ps rs v, n + 1, h => by
    simp only [fitsTy, Bool.and_eq_true] at h
    obtain ⟨⟨⟨hps, hparams⟩, hrs⟩, hresults⟩ := h
    rw [putTy, List.append_assoc, List.append_assoc]
    refine Encodes.behind ?_ (by decide)
    refine ((encodes_readNat (by decide) hps).bind (encodes_readTys ps n hparams)).bind ?_
    refine ((encodes_readNat (by decide) hrs).bind (encodes_readTys rs n hresults)).bind ?_
    exact (encodes_readBool v).map (Ty.func ps rs)
  | .interface, n + 1, _ => by
    rw [putTy, ← List.append_nil (putIndex 8)]
    exact (encodes_pure Ty.interface).behind (by decide)
  | .struct fs, n + 1, h => by
    simp only [fitsTy, Bool.and_eq_true] at h
    rw [putTy]
    refine Encodes.behind ?_ (by decide)
    exact ((encodes_readNat (by decide) h.1).bind (encodes_readFields fs n h.2)).map Ty.struct

theorem encodes_readTys : ∀ (ts : List Ty) (n : Nat), fitsTys ts = true →
    Encodes n (readMany (readTyWithin n) ts.length) ts (putTys ts)
  | [], _, _ => encodes_pure []
  | t :: ts, n, h => by
    simp only [fitsTys, Bool.and_eq_true] at h
    exact (encodes_readTyWithin t n h.1).bind ((encodes_readTys ts n h.2).map _)

theorem encodes_readFields : ∀ (fs : List (String × Ty)) (n : Nat), fitsFields fs = true →
    Encodes n (readMany (do
      let name ← readString
      return (name, ← readTyWithin n)) fs.length) fs (putFields fs)
  | [], _, _ => encodes_pure []
  | (name, t) :: fs, n, h => by
    simp only [fitsFields, Bool.and_eq_true] at h
    obtain ⟨⟨hname, ht⟩, hfs⟩ := h
    refine Encodes.bind ?_ ((encodes_readFields fs n hfs).map _)
    exact (encodes_readString hname).bind ((encodes_readTyWithin t n ht).map _)

end

/-- The number of bytes left is bound enough. -/
theorem encodes_readTy {t : Ty} (h : fitsTy t = true) : Encodes n readTy t (putTy t) where
  whole _ rest := by
    refine (encodes_readTyWithin t _ h).whole ?_ rest
    rw [List.length_append]
    exact Nat.le_add_right _ _
  cut part hpart hne _ := (encodes_readTyWithin t _ h).cut part hpart hne (Nat.le_refl _)

end Lowering.Wire
