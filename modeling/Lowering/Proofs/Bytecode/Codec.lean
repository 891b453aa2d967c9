import Lowering.Bytecode.Codec
import Lowering.Proofs.Wire.Ty

/-!
# Stored bytecode is read back

Finished code comes back from its bytes exactly as it was, whatever follows them: `ofBytes_toBytes`.
Floats come back bit by bit. From fewer bytes nothing is read: `ofBytes_truncated`. The numbers of
code have fixed widths, 32 bits for those of variables, functions and jumps and 64 for places and
counts; `Code.fits` says that they keep to them.

Both statements are the two halves of `Encodes`, which `Code.encodes_read` shows of code as a whole:
every reader takes exactly the bytes that were written for it, and a reader that runs out of bytes
says so before it judges what it has read.
-/

namespace Lowering.Bytecode

open Wire

variable {n : Nat}

/-! ## Instructions -/

def VarRef.fits (r : VarRef) : Bool := fitsNat 32 r.scope && fitsNat 32 r.slot

theorem VarRef.encodes_read {r : VarRef} (h : r.fits = true) :
    Encodes n VarRef.read r r.put := by
  obtain ⟨hscope, hslot⟩ := Bool.and_eq_true_iff.mp h
  exact (encodes_readNat (by decide) hscope).bind ((encodes_readNat (by decide) hslot).map _)

namespace Op

/-- The numbers of an instruction keep to their widths. -/
def fits : Op → Bool
  | push v => fitsValue v
  | pop count => fitsNat 64 count
  | zero t | builtin t _ | listComprehension t | mapComprehension t => fitsTy t
  | cast source target => fitsTy source && fitsTy target
  | jump d | jumpIf _ d | filterForPhrase d | endForPhrase d => fitsInt 32 d
  | caseNe d arity => fitsInt 32 d && fitsNat 64 arity
  | forPhrase key val _ d => key.all VarRef.fits && (val.all VarRef.fits && fitsInt 32 d)
  | closure f | nativeClosure f => fitsNat 32 f
  | callClosure nexpr arity _ | callNativeClosure nexpr arity _ =>
    fitsNat 64 nexpr && fitsInt 32 arity
  | callFunc f nexpr | callNative f nexpr => fitsNat 32 f && fitsNat 64 nexpr
  | callVariadicFunc f nexpr arity | callVariadicNative f nexpr arity =>
    fitsNat 32 f && (fitsNat 64 nexpr && fitsInt 32 arity)
  | ret i | load i | store i | index i | setIndex i => fitsInt 32 i
  | loadVar r | storeVar r | addrVar r => r.fits
  | append t arity => fitsTy t && fitsInt 32 arity
  | makeArray t arity | makeMap t arity | make t arity => fitsTy t && fitsNat 64 arity
  | slice i j => fitsInt 32 i && fitsInt 32 j
  | slice3 i j k => fitsInt 32 i && (fitsInt 32 j && fitsInt 32 k)
  | reserved | builtinOp _ _ | addressOp _ _ | default | endComprehension | mapIndex
  | setMapIndex => true

theorem encodes_read {op : Op} (h : op.fits = true) : Encodes n read op op.put := by
  cases op with
  | reserved | default | endComprehension | mapIndex | setMapIndex =>
    exact (encodes_readIndex (by decide)).last rfl
  | push v => exact (encodes_readIndex (by decide)).bind ((encodes_readValue h).map _)
  | pop count =>
    exact (encodes_readIndex (by decide)).bind ((encodes_readNat (by decide) h).map _)
  | zero t | listComprehension t | mapComprehension t =>
    exact (encodes_readIndex (by decide)).bind ((encodes_readTy h).map _)
  | builtinOp k op =>
    rw [put, List.append_assoc]
    refine (encodes_readIndex (by decide)).bind ((encodes_readKind k).bind ?_)
    exact (encodes_readOperator op).map _
  | addressOp k op =>
    rw [put, List.append_assoc]
    refine (encodes_readIndex (by decide)).bind ((encodes_readKind k).bind ?_)
    exact (encodes_readAddressOp op).map _
  | builtin t b =>
    rw [put, List.append_assoc]
    refine (encodes_readIndex (by decide)).bind ((encodes_readTy h).bind ?_)
    exact (encodes_readBuiltin b).map _
  | cast source target =>
    obtain ⟨hsource, htarget⟩ := Bool.and_eq_true_iff.mp h
    rw [put, List.append_assoc]
    refine (encodes_readIndex (by decide)).bind ((encodes_readTy hsource).bind ?_)
    exact (encodes_readTy htarget).map _
  | jump d | filterForPhrase d | endForPhrase d =>
    exact (encodes_readIndex (by decide)).bind ((encodes_readInt (by decide) h).map _)
  | jumpIf cond d =>
    rw [put, List.append_assoc]
    refine (encodes_readIndex (by decide)).bind ((encodes_readBool cond).bind ?_)
    exact (encodes_readInt (by decide) h).map _
  | caseNe d arity =>
    obtain ⟨hd, harity⟩ := Bool.and_eq_true_iff.mp h
    rw [put, List.append_assoc]
    refine (encodes_readIndex (by decide)).bind ((encodes_readInt (by decide) hd).bind ?_)
    exact (encodes_readNat (by decide) harity).map _
  | forPhrase key val context d =>
    obtain ⟨hkey, hrest⟩ := Bool.and_eq_true_iff.mp h
    obtain ⟨hval, hd⟩ := Bool.and_eq_true_iff.mp hrest
    rw [put, List.append_assoc, List.append_assoc, List.append_assoc]
    refine (encodes_readIndex (by decide)).bind ?_
    refine (encodes_readOption hkey fun r hr => VarRef.encodes_read hr).bind ?_
    refine (encodes_readOption hval fun r hr => VarRef.encodes_read hr).bind ?_
    exact (encodes_readBool context).bind ((encodes_readInt (by decide) hd).map _)
  | closure f | nativeClosure f =>
    exact (encodes_readIndex (by decide)).bind ((encodes_readNat (by decide) h).map _)
  | callClosure nexpr arity ellipsis | callNativeClosure nexpr arity ellipsis =>
    obtain ⟨hnexpr, harity⟩ := Bool.and_eq_true_iff.mp h
    rw [put, List.append_assoc, List.append_assoc]
    refine (encodes_readIndex (by decide)).bind ((encodes_readNat (by decide) hnexpr).bind ?_)
    exact (encodes_readInt (by decide) harity).bind ((encodes_readBool ellipsis).map _)
  | callFunc f nexpr | callNative f nexpr =>
    obtain ⟨hf, hnexpr⟩ := Bool.and_eq_true_iff.mp h
    rw [put, List.append_assoc]
    refine (encodes_readIndex (by decide)).bind ((encodes_readNat (by decide) hf).bind ?_)
    exact (encodes_readNat (by decide) hnexpr).map _
  | callVariadicFunc f nexpr arity | callVariadicNative f nexpr arity =>
    obtain ⟨hf, hrest⟩ := Bool.and_eq_true_iff.mp h
    obtain ⟨hnexpr, harity⟩ := Bool.and_eq_true_iff.mp hrest
    rw [put, List.append_assoc, List.append_assoc]
    refine (encodes_readIndex (by decide)).bind ((encodes_readNat (by decide) hf).bind ?_)
    exact (encodes_readNat (by decide) hnexpr).bind ((encodes_readInt (by decide) harity).map _)
  | ret i | load i | store i | index i | setIndex i =>
    exact (encodes_readIndex (by decide)).bind ((encodes_readInt (by decide) h).map _)
  | loadVar r | storeVar r | addrVar r =>
    exact (encodes_readIndex (by decide)).bind ((VarRef.encodes_read h).map _)
  | append t arity =>
    obtain ⟨ht, harity⟩ := Bool.and_eq_true_iff.mp h
    rw [put, List.append_assoc]
    refine (encodes_readIndex (by decide)).bind ((encodes_readTy ht).bind ?_)
    exact (encodes_readInt (by decide) harity).map _
  | makeArray t arity | makeMap t arity | make t arity =>
    obtain ⟨ht, harity⟩ := Bool.and_eq_true_iff.mp h
    rw [put, List.append_assoc]
    refine (encodes_readIndex (by decide)).bind ((encodes_readTy ht).bind ?_)
    exact (encodes_readNat (by decide) harity).map _
  | slice i j =>
    obtain ⟨hi, hj⟩ := Bool.and_eq_true_iff.mp h
    rw [put, List.append_assoc]
    refine (encodes_readIndex (by decide)).bind ((encodes_readInt (by decide) hi).bind ?_)
    exact (encodes_readInt (by decide) hj).map _
  | slice3 i j k =>
    obtain ⟨hi, hrest⟩ := Bool.and_eq_true_iff.mp h
    obtain ⟨hj, hk⟩ := Bool.and_eq_true_iff.mp hrest
    rw [put, List.append_assoc, List.append_assoc]
    refine (encodes_readIndex (by decide)).bind ((encodes_readInt (by decide) hi).bind ?_)
    exact (encodes_readInt (by decide) hj).bind ((encodes_readInt (by decide) hk).map _)

end Op

/-! ## Functions and statements -/

def FuncEntry.fits (f : FuncEntry) : Bool :=
  fitsNat 32 f.id && fitsString f.name && fitsNat 64 f.entry && fitsNat 64 f.stop &&
    fitsNat 64 f.numIn && fitsNat 64 f.numOut && fitsNat 32 f.numVars

theorem FuncEntry.encodes_read {f : FuncEntry} (h : f.fits = true) :
    Encodes n FuncEntry.read f f.put := by
  simp only [fits, Bool.and_eq_true] at h
  obtain ⟨⟨⟨⟨⟨⟨hid, hname⟩, hentry⟩, hstop⟩, hnumIn⟩, hnumOut⟩, hnumVars⟩ := h
  simp only [put, List.append_assoc]
  refine (encodes_readNat (by decide) hid).bind ((encodes_readString hname).bind ?_)
  refine (encodes_readNat (by decide) hentry).bind ((encodes_readNat (by decide) hstop).bind ?_)
  refine (encodes_readNat (by decide) hnumIn).bind ((encodes_readNat (by decide) hnumOut).bind ?_)
  exact (encodes_readBool f.variadic).bind ((encodes_readNat (by decide) hnumVars).map _)

def StmtSpan.fits (s : StmtSpan) : Bool :=
  fitsNat 64 s.start && fitsNat 64 s.stop && fitsString s.pos.file && fitsNat 32 s.pos.line

theorem StmtSpan.encodes_read {s : StmtSpan} (h : s.fits = true) :
    Encodes n StmtSpan.read s s.put := by
  simp only [fits, Bool.and_eq_true] at h
  obtain ⟨⟨⟨hstart, hstop⟩, hfile⟩, hline⟩ := h
  simp only [put, List.append_assoc]
  refine (encodes_readNat (by decide) hstart).bind ((encodes_readNat (by decide) hstop).bind ?_)
  exact (encodes_readString hfile).bind ((encodes_readNat (by decide) hline).map _)

/-! ## Code -/

namespace Code

/-- All numbers of the code keep to the widths that they are stored in. -/
def fits (c : Code) : Bool :=
  fitsList Op.fits c.ops && fitsList FuncEntry.fits c.funcs && fitsList StmtSpan.fits c.spans &&
    fitsNat 32 c.numVars

theorem encodes_read {c : Code} (h : c.fits = true) : Encodes n Code.read c c.toBytes := by
  simp only [fits, Bool.and_eq_true] at h
  obtain ⟨⟨⟨hops, hfuncs⟩, hspans⟩, hnumVars⟩ := h
  simp only [toBytes, List.append_assoc]
  refine (encodes_readList hops fun op hop => Op.encodes_read hop).bind ?_
  refine (encodes_readList hfuncs fun f hf => FuncEntry.encodes_read hf).bind ?_
  refine (encodes_readList hspans fun s hs => StmtSpan.encodes_read hs).bind ?_
  exact (encodes_readNat (by decide) hnumVars).map _

/-- **Stored code is read back**, bit by bit and whatever follows it. -/
theorem ofBytes_toBytes (c : Code) (h : c.fits = true) (rest : List UInt8) :
    ofBytes (c.toBytes ++ rest) = .ok c := by
  have hread := (encodes_read (n := c.toBytes.length) h).whole (Nat.le_refl _) rest
  unfold ofBytes run
  rw [hread]
  rfl

/-- Code with a nested type, a negative offset, a float that is not a number and a text of more
bytes than letters. -/
def mixed : Code where
  ops := [.push (.float .double ⟨0x7ff8000000000001⟩), .push (.integer .int8 (-128) (by decide)),
    .push (.string "größe"), .jumpIf false (-3), .callVariadicNative 7 3 (-1),
    .forPhrase (some ⟨0, 2⟩) none true (-2147483648),
    .zero (.named "main" "Tree" (.struct [
      ("kids", .slice (.ptr (.map (.basic .string) .interface))),
      ("visit", .func [.array 300 (.basic .bool), .slice .interface] [.chan .interface] true)]))]
  funcs := [⟨4294967295, "visit", 1, 4, 2, 1, true, 200⟩]
  spans := [⟨0, 3, ⟨"größe.gop", 4294967295⟩⟩]
  numVars := 3

theorem ofBytes_toBytes_mixed :
    mixed.fits = true ∧ ofBytes (mixed.toBytes ++ [0, 255]) = .ok mixed :=
  have hfits : mixed.fits = true := by decide +kernel
  ⟨hfits, ofBytes_toBytes mixed hfits [0, 255]⟩

/-- **Truncated code is always rejected**, wherever it ends: too few bytes are reported as such and
never as something else, and they are never read as other code. -/
theorem ofBytes_truncated (c : Code) (h : c.fits = true) {part : List UInt8}
    (hpart : part <+: c.toBytes) (hne : part ≠ c.toBytes) :
    ofBytes part = .error .unexpectedEnd := by
  have hread := (encodes_read (n := part.length) h).cut part hpart hne (Nat.le_refl _)
  unfold ofBytes run
  rw [hread]
  rfl

/-- Code that ends within a float, within a letter, within a number and in front of its last
field. -/
theorem ofBytes_truncated_mixed :
    mixed.fits = true ∧ ∀ k ∈ [6, 20, 124, 125],
      mixed.toBytes.take k ≠ mixed.toBytes ∧
        ofBytes (mixed.toBytes.take k) = .error .unexpectedEnd := by
  have hfits : mixed.fits = true := by decide +kernel
  have hcut : ∀ k ∈ [6, 20, 124, 125], mixed.toBytes.take k ≠ mixed.toBytes := by decide +kernel
  exact ⟨hfits, fun k hk =>
    ⟨hcut k hk, ofBytes_truncated mixed hfits (List.take_prefix k _) (hcut k hk)⟩⟩

end Code

end Lowering.Bytecode
