import Lowering.Constant.Expr
import Lowering.Proofs.Integer.Conversion
import Lowering.Proofs.Integer.Exact
import Lowering.Proofs.Run

/-!
# Folding open integers

An open integer lies between the least `int` and the greatest `uint64`, but an operation on open
integers is computed in one of the two kinds: in `uint64` if one of the operands is greater than
every `int`, and in `int` otherwise (`integerKind`). The count of a shift takes no part in this.

Folding is exact: what a tree folds to is its value over the integers, and it is stored in the one
form that this value has (`eval_eq_exact`). Folding is not complete: a result may be an open integer
and still be refused, because it or an operand is out of the range of the chosen kind.
`fold_openInteger` says when this happens, and that it is always reported as an overflow.
-/

namespace Lowering

/-- The computation ends in an overflow. -/
def Overflows {α : Type} (outcome : Except (Failure CompileError) α) : Prop :=
  ∃ value ty, outcome = .error (.error (.overflow value ty))

theorem Overflows.bind {α β : Type} {first : Except (Failure CompileError) α}
    {next : α → Except (Failure CompileError) β} (h : Overflows first) :
    Overflows (first >>= next) := by
  obtain ⟨value, ty, rfl⟩ := h
  exact ⟨value, ty, rfl⟩

/-- The integers that are brought to one kind before an operator is applied: its operands, but not
the count of a shift. -/
def BinaryOp.converted (op : BinaryOp) (x y : Int) : List Int := if op.isShift then [x] else [x, y]

namespace Const

variable {c x y : Const} {a b z : Int} {k : IntKind} {v : Value}

/-! ## Open integers -/

/-- `c` is the open constant that is made of the integer `z`. -/
inductive OpenInteger : Const → Int → Prop
  | int (n : Int64) : OpenInteger (.int n) n.toInt
  | uint (n : UInt64) : OpenInteger (.uint n) n.toNat

/-- The kind in which open integers are computed, and in which a single one is stored: `uint64` if
one of them is greater than every `int`. -/
def integerKind (zs : List Int) : IntKind :=
  if zs.any (IntKind.int.hi < ·) then .uint64 else .int

/-- Open integers are computed in one of two kinds. -/
theorem integerKind_eq_or (zs : List Int) : integerKind zs = .int ∨ integerKind zs = .uint64 := by
  unfold integerKind
  split
  · exact .inr rfl
  · exact .inl rfl

theorem integerKind_singleton_eq_int : integerKind [z] = .int ↔ z ≤ IntKind.int.hi := by
  simp [integerKind]

theorem integerKind_singleton_eq_uint64 : integerKind [z] = .uint64 ↔ IntKind.int.hi < z := by
  simp [integerKind]

/-- How an open integer is held is determined by its number. -/
theorem OpenInteger.stored (h : OpenInteger c z) : ∃ k, k = integerKind [z] ∧
    ∃ hz : k.Fits z, c = { value := .integer k z hz, kind := .untypedInt } := by
  cases h with
  | int n =>
    exact ⟨.int, (integerKind_singleton_eq_int.mpr (Int.le_sub_one_of_lt n.toInt_lt)).symm, _, rfl⟩
  | uint n =>
    unfold Const.uint
    split
    · next hfits => exact ⟨.int, (integerKind_singleton_eq_int.mpr hfits.2).symm, hfits, rfl⟩
    · next hfits =>
      have hwide : IntKind.int.hi < n.toNat := by
        have hlo : IntKind.int.lo ≤ n.toNat :=
          Int.le_trans (by decide : IntKind.int.lo ≤ 0) (Int.natCast_nonneg _)
        exact Int.not_le.mp fun hhi => hfits ⟨hlo, hhi⟩
      exact ⟨.uint64, (integerKind_singleton_eq_uint64.mpr hwide).symm,
        ⟨Int.natCast_nonneg _, Int.le_sub_one_of_lt (Int.ofNat_lt.mpr n.toNat_lt)⟩, rfl⟩

/-- Conversely, what is held like that is an open integer. -/
theorem openInteger_of_stored (hk : k = integerKind [z]) (hz : k.Fits z) :
    OpenInteger { value := .integer k z hz, kind := .untypedInt } z := by
  rcases integerKind_eq_or [z] with hint | huint
  · obtain rfl := hk.trans hint
    have hn : (Int64.ofInt z).toInt = z :=
      Int64.toInt_ofInt_of_le hz.1 (Int.lt_of_le_sub_one hz.2)
    have := OpenInteger.int (Int64.ofInt z)
    simpa only [Const.int, hn] using this
  · obtain rfl := hk.trans huint
    have hwide := integerKind_singleton_eq_uint64.mp huint
    have hn : ((UInt64.ofNat z.toNat).toNat : Int) = z := by
      obtain ⟨hlo, hhi⟩ : 0 ≤ z ∧ z ≤ 2 ^ 64 - 1 := hz
      rw [UInt64.toNat_ofNat_of_lt' (by simp [UInt64.size]; omega)]
      exact Int.toNat_of_nonneg hlo
    have := OpenInteger.uint (UInt64.ofNat z.toNat)
    have hfits : ¬ IntKind.int.Fits z := fun h => Int.not_le.mpr hwide h.2
    simpa only [Const.uint, hn, dif_neg hfits] using this

/-- Wide integers are those above the range of `int`. -/
theorem OpenInteger.isWide (h : OpenInteger c z) : c.isWide = decide (IntKind.int.hi < z) := by
  obtain ⟨k, hk, hz, rfl⟩ := h.stored
  by_cases hwide : IntKind.int.hi < z
  · obtain rfl := hk.trans (integerKind_singleton_eq_uint64.mpr hwide)
    rw [decide_eq_true hwide]
    rfl
  · obtain rfl := hk.trans (integerKind_singleton_eq_int.mpr (Int.not_lt.mp hwide))
    rw [decide_eq_false hwide]
    rfl

/-- One operand is computed in the kind in which it is held. -/
theorem foldKind_wide (hx : OpenInteger x a) :
    foldKind .untypedInt x.isWide = .integer (integerKind [a]) := by
  rw [hx.isWide, foldKind, integerKind]
  by_cases ha : IntKind.int.hi < a <;> simp [ha]

/-- Two operands are computed in the wide kind if one of them is wide. -/
theorem foldKind_wide_or (hx : OpenInteger x a) (hy : OpenInteger y b) :
    foldKind .untypedInt (x.isWide || y.isWide) = .integer (integerKind [a, b]) := by
  rw [hx.isWide, hy.isWide, foldKind, integerKind]
  by_cases ha : IntKind.int.hi < a <;> by_cases hb : IntKind.int.hi < b <;> simp [ha, hb]

/-- An open integer is known, and reserved constants are not. -/
theorem OpenInteger.checkUnreserved (h : OpenInteger c z) (isUnary : Bool) :
    checkUnreserved isUnary c = .ok () := by
  obtain ⟨k, -, hz, rfl⟩ := h.stored
  rfl

theorem OpenInteger.kind (h : OpenInteger c z) : c.kind = .untypedInt := by
  obtain ⟨k, -, hz, rfl⟩ := h.stored
  rfl

theorem OpenInteger.toInt? (h : OpenInteger c z) : c.value.toInt? = some z := by
  obtain ⟨k, -, hz, rfl⟩ := h.stored
  rfl

/-! ## Operands -/

/-- A number that is in range can be had in any kind. -/
theorem toKind_of_fits (hv : v.toInt? = some z) (hz : k.Fits z) :
    toKind v (.integer k) = .ok (.integer k z hz) := by
  rw [toKind, Value.represent_of_fits hv hz]

/-- A number that is not in range is refused for that reason. -/
theorem overflows_toKind (hv : v.toInt? = some z) (hz : ¬ k.Fits z) :
    Overflows (toKind v (.integer k)) := by
  rw [toKind, Value.represent_of_not_fits hv hz]
  exact ⟨_, _, rfl⟩

/-! ## Results -/

/-- A result is stored in the form that its value has, whatever kind it was computed in. -/
theorem openInteger_normalize (hk : k = .int ∨ k = .uint64) (hz : k.Fits z) :
    OpenInteger { value := normalize .untypedInt (.integer k z hz), kind := .untypedInt } z := by
  rcases hk with rfl | rfl
  · exact openInteger_of_stored (integerKind_singleton_eq_int.mpr hz.2).symm hz
  · rw [normalize, Value.integer?]
    split
    · next hint => exact openInteger_of_stored (integerKind_singleton_eq_int.mpr hint.2).symm hint
    · next hint =>
      have hwide : IntKind.int.hi < z := by
        have hlo : IntKind.int.lo ≤ z := Int.le_trans (by decide) hz.1
        exact Int.not_le.mp fun hhi => hint ⟨hlo, hhi⟩
      exact openInteger_of_stored (integerKind_singleton_eq_uint64.mpr hwide).symm hz

/-- A result is held in the way in which its number is, which may be the other of the two. -/
theorem folded_integer {op : Operator} (hop : op.resultKind .untypedInt = .untypedInt)
    (hk : k = .int ∨ k = .uint64) (hz : k.Fits z) :
    ∃ c, folded op .untypedInt (.integer k z hz) = .ok c ∧ OpenInteger c z := by
  have hopen := openInteger_normalize hk hz
  have hholds : holds .untypedInt (normalize .untypedInt (.integer k z hz)) = true := by
    obtain ⟨l, hl, hz', hc⟩ := hopen.stored
    rw [(Const.mk.inj hc).1]
    rcases integerKind_eq_or [z] with h | h <;> (rw [h] at hl; subst hl; rfl)
  refine ⟨_, ?_, hopen⟩
  rw [folded, hop, make, if_pos hholds]

section Compute

variable {op : Operator} {args : List Value}

/-- An exact result that is in range is the value of the operation. -/
theorem compute_of_fits (hop : op.resultKind .untypedInt = .untypedInt)
    (hk : k = .int ∨ k = .uint64)
    (happly : Evaluate.apply (.integer k) op args =
      Evaluate.settle op (.integer k) (some (Evaluate.checked k z))) (hz : k.Fits z) :
    ∃ c, compute op .untypedInt (.integer k) args = .ok c ∧ OpenInteger c z := by
  rw [compute, happly, Evaluate.checked_of_fits hz]
  exact folded_integer hop hk hz

/-- The range is that of the kind in which the operation is computed, though the result could be
held in the other. -/
theorem overflows_compute (happly : Evaluate.apply (.integer k) op args =
      Evaluate.settle op (.integer k) (some (Evaluate.checked k z))) (hz : ¬ k.Fits z) :
    Overflows (compute op .untypedInt (.integer k) args) := by
  rw [compute, happly, Evaluate.checked_of_not_fits hz]
  exact ⟨_, _, rfl⟩

end Compute

/-! ## One operator -/

section Unary

/-- The operand is not converted. -/
theorem foldUnary_openInteger (op : UnaryOp) (hx : OpenInteger x a)
    (hop : op.accepts (.integer .int64) = true) :
    ∃ ha, foldUnary op x = compute (.unary op) .untypedInt (.integer (integerKind [a]))
      [.integer (integerKind [a]) a ha] := by
  have ha : (integerKind [a]).Fits a := by
    obtain ⟨k, rfl, ha, -⟩ := hx.stored
    exact ha
  refine ⟨ha, ?_⟩
  unfold foldUnary
  rw [hx.checkUnreserved, hx.kind, foldKind_wide hx]
  show (if !op.accepts (.integer .int64) then _ else _) = _
  rw [hop]
  show (toKind x.value (.integer (integerKind [a])) >>= _) = _
  rw [toKind_of_fits hx.toInt? ha]
  rfl

/-- Neither the least `int` nor a number above all of them can be negated. -/
theorem neg_openInteger (hx : OpenInteger x a) :
    if (integerKind [a]).Fits (-a)
    then ∃ c, Const.unary (.unary .neg) x = .ok c ∧ OpenInteger c (-a)
    else Overflows (Const.unary (.unary .neg) x) := by
  obtain ⟨ha, hfold⟩ := foldUnary_openInteger .neg hx rfl
  have happly := Evaluate.apply_unary_integer .neg ha
  rw [Evaluate.integerUnary_eq_checked ha (by simp) rfl] at happly
  rw [Const.unary, hfold]
  split
  · next hz => exact compute_of_fits rfl (integerKind_eq_or [a]) happly hz
  · next hz => exact overflows_compute happly hz

/-- The bits are those of the kind in which the operand is held, so the complement of a wide integer
is not negative. -/
theorem bitNot_openInteger (hx : OpenInteger x a) :
    ∃ c, Const.unary (.unary .bitNot) x = .ok c ∧
      OpenInteger c (if a ≤ IntKind.int.hi then a.lnot else IntKind.uint64.hi - a) := by
  obtain ⟨ha, hfold⟩ := foldUnary_openInteger .bitNot hx rfl
  have happly := Evaluate.apply_unary_integer .bitNot ha
  rw [Evaluate.integerUnary_bitNot ha] at happly
  have hflipped : Evaluate.flipped (integerKind [a]) a =
      if a ≤ IntKind.int.hi then a.lnot else IntKind.uint64.hi - a := by
    split
    · next hnarrow =>
      rw [integerKind_singleton_eq_int.mpr hnarrow]
      rfl
    · next hwide =>
      rw [integerKind_singleton_eq_uint64.mpr (Int.not_le.mp hwide)]
      rfl
  rw [Const.unary, hfold, ← hflipped]
  exact compute_of_fits rfl (integerKind_eq_or [a]) happly (Evaluate.fits_flipped ha)

end Unary

section Binary

variable {op : BinaryOp}

/-- Two open integers stay open. -/
theorem governingKind_openInteger (hx : OpenInteger x a) (hy : OpenInteger y b) :
    governingKind op x y = .ok .untypedInt := by
  unfold governingKind isBound
  rw [hx.kind, hy.kind]
  split <;> rfl

theorem shiftCount_openInteger (hy : OpenInteger y b) : shiftCount op y = .ok y.value := by
  obtain ⟨k, hk, hb, rfl⟩ := hy.stored
  rcases integerKind_eq_or [b] with h | h <;> (rw [h] at hk; subst hk; rfl)

/-- Operands are brought to one kind, and then computed there. -/
theorem foldBinary_of_isShift_eq_false (hx : OpenInteger x a) (hy : OpenInteger y b)
    (hop : op.accepts (.integer .int64) = true) (hshift : op.isShift = false) :
    foldBinary op x y = (do
      let vy ← toKind y.value (.integer (integerKind [a, b]))
      let vx ← toKind x.value (.integer (integerKind [a, b]))
      compute (.binary op) .untypedInt (.integer (integerKind [a, b])) [vx, vy]) := by
  unfold foldBinary
  rw [hx.checkUnreserved, hy.checkUnreserved, governingKind_openInteger hx hy]
  show (if !op.accepts (.integer .int64) then _ else _) = _
  rw [hop, hshift, foldKind_wide_or hx hy]
  rfl

/-- A shift leaves its count as it is. -/
theorem foldBinary_of_isShift (hx : OpenInteger x a) (hy : OpenInteger y b)
    (hop : op.accepts (.integer .int64) = true) (hshift : op.isShift = true) :
    foldBinary op x y = (do
      let vx ← toKind x.value (.integer (integerKind [a]))
      compute (.binary op) .untypedInt (.integer (integerKind [a])) [vx, y.value]) := by
  unfold foldBinary
  rw [hx.checkUnreserved, hy.checkUnreserved, governingKind_openInteger hx hy,
    shiftCount_openInteger hy]
  show (if !op.accepts (.integer .int64) then _ else _) = _
  rw [hop, hshift, foldKind_wide hx]
  rfl

theorem accepts_of_yieldsBool_eq_false (h : op.yieldsBool = false) (i : IntKind) :
    op.accepts (.integer i) = true := by
  cases op with
  | lt | le | gt | ge | eq | ne | lAnd | lOr => cases h
  | _ => rfl

theorem yieldsBool_of_exact (h : op.exact a b = some z) : op.yieldsBool = false := by
  cases op with
  | lt | le | gt | ge | eq | ne | lAnd | lOr => cases h
  | _ => rfl

/-- Operands that can be had in one kind are computed in it. The count of a shift keeps its own. -/
theorem foldBinary_of_fits (hx : OpenInteger x a) (hy : OpenInteger y b)
    (hop : op.accepts (.integer .int64) = true) (hk : k = integerKind (op.converted a b))
    (hfits : ∀ n ∈ op.converted a b, k.Fits n) :
    ∃ ha l hb, (k = l ∨ op.isShift = true) ∧ foldBinary op x y =
      compute (.binary op) .untypedInt (.integer k) [.integer k a ha, .integer l b hb] := by
  unfold BinaryOp.converted at hk hfits
  cases hshift : op.isShift with
  | false =>
    simp only [hshift, Bool.false_eq_true, if_false, List.mem_cons, List.not_mem_nil, or_false,
      forall_eq_or_imp, forall_eq] at hk hfits
    obtain ⟨ha, hb⟩ := hfits
    refine ⟨ha, k, hb, .inl rfl, ?_⟩
    rw [foldBinary_of_isShift_eq_false hx hy hop hshift, ← hk, toKind_of_fits hx.toInt? ha,
      toKind_of_fits hy.toInt? hb]
    rfl
  | true =>
    simp only [hshift, if_true, List.mem_singleton, forall_eq] at hk hfits
    obtain ⟨l, -, hb, hyl⟩ := hy.stored
    refine ⟨hfits, l, hb, .inr rfl, ?_⟩
    rw [foldBinary_of_isShift hx hy hop hshift, ← hk, toKind_of_fits hx.toInt? hfits, hyl]
    rfl

/-- A negative operand beside a wide one is refused. -/
theorem overflows_foldBinary (hx : OpenInteger x a) (hy : OpenInteger y b)
    (hop : op.accepts (.integer .int64) = true) (hk : k = integerKind (op.converted a b))
    (hfits : ¬ ∀ n ∈ op.converted a b, k.Fits n) : Overflows (foldBinary op x y) := by
  unfold BinaryOp.converted at hk hfits
  cases hshift : op.isShift with
  | false =>
    simp only [hshift, Bool.false_eq_true, if_false, List.mem_cons, List.not_mem_nil, or_false,
      forall_eq_or_imp, forall_eq] at hk hfits
    rw [foldBinary_of_isShift_eq_false hx hy hop hshift, ← hk]
    by_cases hb : k.Fits b
    · rw [toKind_of_fits hy.toInt? hb]
      exact (overflows_toKind hx.toInt? fun ha => hfits ⟨ha, hb⟩).bind
    · exact (overflows_toKind hy.toInt? hb).bind
  | true =>
    -- A single operand is always in the range of its own kind.
    simp only [hshift, if_true, List.mem_singleton, forall_eq] at hk hfits
    obtain ⟨l, hl, ha, -⟩ := hx.stored
    exact absurd (hk.trans hl.symm ▸ ha) hfits

/-- An operation is exact, or it overflows: in its operands or in its result. -/
theorem binary_openInteger (hx : OpenInteger x a) (hy : OpenInteger y b)
    (h : op.exact a b = some z) :
    if ∀ n ∈ z :: op.converted a b, (integerKind (op.converted a b)).Fits n
    then ∃ c, Const.binary (.binary op) x y = .ok c ∧ OpenInteger c z
    else Overflows (Const.binary (.binary op) x y) := by
  have hyields := yieldsBool_of_exact h
  have haccepts := accepts_of_yieldsBool_eq_false hyields .int64
  have hresult : (Operator.binary op).resultKind .untypedInt = .untypedInt := by
    rw [Operator.resultKind, BinaryOp.resultKind, if_neg (by simp [hyields])]
  by_cases hfits : ∀ n ∈ op.converted a b, (integerKind (op.converted a b)).Fits n
  · obtain ⟨ha, l, hb, hl, hfold⟩ := foldBinary_of_fits hx hy haccepts rfl hfits
    have happly := Evaluate.apply_binary_integer ha hb hl
    rw [Evaluate.integerBinary_eq_checked ha hb hl h] at happly
    rw [Const.binary, hfold]
    split
    · next hall =>
      exact compute_of_fits hresult (integerKind_eq_or _) happly (hall z List.mem_cons_self)
    · next hall =>
      refine overflows_compute happly fun hz => hall ?_
      rintro n (_ | ⟨_, hn⟩)
      · exact hz
      · exact hfits n hn
  · rw [if_neg fun hall => hfits fun n hn => hall n (List.mem_cons_of_mem _ hn)]
    exact overflows_foldBinary hx hy haccepts rfl hfits

/-- The same for comparisons, whose results cannot overflow. -/
theorem compare_openInteger {truth : Bool} (hx : OpenInteger x a) (hy : OpenInteger y b)
    (h : op.compare? a b = some truth) :
    if ∀ n ∈ [a, b], (integerKind [a, b]).Fits n
    then Const.binary (.binary op) x y = .ok (.typed (.bool truth))
    else Overflows (Const.binary (.binary op) x y) := by
  obtain ⟨haccepts, hconverted, hresult⟩ : op.accepts (.integer .int64) = true ∧
      op.converted a b = [a, b] ∧ op.resultKind .untypedInt = .bool := by
    cases op with
    | lt | le | gt | ge | eq | ne => exact ⟨rfl, rfl, rfl⟩
    | _ => cases h
  rw [← hconverted, Const.binary]
  split
  · next hfits =>
    obtain ⟨ha, l, hb, hl, hfold⟩ := foldBinary_of_fits hx hy haccepts rfl hfits
    rw [hfold, compute, Evaluate.apply_binary_integer ha hb hl,
      Evaluate.integerBinary_eq_compare ha hb h]
    simp only [Evaluate.settle, folded, Operator.resultKind, hresult]
    rfl
  · next hfits => exact overflows_foldBinary hx hy haccepts rfl hfits

/-- What is folded is the exact result. -/
theorem exact_of_binary (hx : OpenInteger x a) (hy : OpenInteger y b)
    (hop : op.yieldsBool = false) (hc : Const.binary (.binary op) x y = .ok c) :
    ∃ z, op.exact a b = some z ∧ OpenInteger c z := by
  cases hz : op.exact a b with
  | some z =>
    have houtcome := binary_openInteger hx hy hz
    split at houtcome
    · obtain ⟨c', hc', hopen⟩ := houtcome
      obtain rfl := Except.ok.inj (hc.symm.trans hc')
      exact ⟨z, rfl, hopen⟩
    · obtain ⟨value, ty, herror⟩ := houtcome
      rw [hc] at herror
      cases herror
  | none =>
    have haccepts := accepts_of_yieldsBool_eq_false hop .int64
    rw [Const.binary] at hc
    by_cases hfits : ∀ n ∈ op.converted a b, (integerKind (op.converted a b)).Fits n
    · obtain ⟨ha, l, hb, hl, hfold⟩ := foldBinary_of_fits hx hy haccepts rfl hfits
      have herror := Evaluate.integerBinary_of_exact_eq_none
        (k := integerKind (op.converted a b)) hb hop hz
      rw [hfold, compute, Evaluate.apply_binary_integer ha hb hl, herror] at hc
      cases hc
    · obtain ⟨value, ty, herror⟩ := overflows_foldBinary hx hy haccepts rfl hfits
      rw [hc] at herror
      cases herror

end Binary

/-! ## When folding succeeds -/

/-- **Open integers fold exactly within the kind of the computation.** An operator on open integers
gives the exact result if this result and the converted operands are in the range of `uint64`, when
one of these operands is greater than every `int`, or in the range of `int`, when none is.
Comparisons give the truth value under the same condition. Everything else overflows. Only the
complement never does: above the range of `int` it flips the 64 bits of its operand. -/
theorem fold_openInteger (hx : OpenInteger x a) (hy : OpenInteger y b) :
    (if (integerKind [a]).Fits (-a)
      then ∃ c, Const.unary (.unary .neg) x = .ok c ∧ OpenInteger c (-a)
      else Overflows (Const.unary (.unary .neg) x)) ∧
    (∃ c, Const.unary (.unary .bitNot) x = .ok c ∧
      OpenInteger c (if a ≤ IntKind.int.hi then a.lnot else IntKind.uint64.hi - a)) ∧
    (∀ (op : BinaryOp) (z : Int), op.exact a b = some z →
      if ∀ n ∈ z :: op.converted a b, (integerKind (op.converted a b)).Fits n
      then ∃ c, Const.binary (.binary op) x y = .ok c ∧ OpenInteger c z
      else Overflows (Const.binary (.binary op) x y)) ∧
    (∀ (op : BinaryOp) (truth : Bool), op.compare? a b = some truth →
      if ∀ n ∈ [a, b], (integerKind [a, b]).Fits n
      then Const.binary (.binary op) x y = .ok (.typed (.bool truth))
      else Overflows (Const.binary (.binary op) x y)) :=
  ⟨neg_openInteger hx, bitNot_openInteger hx, fun _ _ => binary_openInteger hx hy,
    fun _ _ => compare_openInteger hx hy⟩

/-- The greatest `uint64` less one: each operand is in the range of the computation. -/
theorem fold_openInteger_sub :
    OpenInteger (.uint 18446744073709551615) 18446744073709551615 ∧ OpenInteger (.int 1) 1 ∧
      ∃ c, Const.binary (.binary .sub) (.uint 18446744073709551615) (.int 1) = .ok c ∧
        OpenInteger c 18446744073709551614 := by
  refine ⟨.uint 18446744073709551615, .int 1, ?_⟩
  have h := (fold_openInteger (.uint 18446744073709551615) (.int 1)).2.2.1 .sub _ rfl
  rwa [if_pos (by decide)] at h

/-- The sum of -1 and the greatest `uint64` is an open integer, but the sum overflows, because -1
is not a `uint64`; so does the comparison of the two. -/
theorem overflows_mixed_signs :
    OpenInteger (.int (-1)) (-1) ∧
      OpenInteger (.uint 18446744073709551615) 18446744073709551615 ∧
      BinaryOp.exact .add (-1) 18446744073709551615 = some 18446744073709551614 ∧
      OpenInteger (.uint 18446744073709551614) 18446744073709551614 ∧
      Overflows (Const.binary (.binary .add) (.int (-1)) (.uint 18446744073709551615)) ∧
      Overflows (Const.binary (.binary .lt) (.int (-1)) (.uint 18446744073709551615)) := by
  refine ⟨.int (-1), .uint 18446744073709551615, rfl, .uint 18446744073709551614, ?_, ?_⟩
  · have h := binary_openInteger (.int (-1)) (.uint 18446744073709551615)
      (rfl : BinaryOp.exact .add _ _ = some _)
    rwa [if_neg (by decide)] at h
  · have h := compare_openInteger (.int (-1)) (.uint 18446744073709551615)
      (rfl : BinaryOp.compare? .lt _ _ = some _)
    rwa [if_neg (by decide)] at h

end Const

/-! ## Trees -/

namespace ConstExpr

/-- Whether the tree has open integers as leaves and arithmetic operators as nodes. -/
def isInteger : ConstExpr → Bool
  | literal (.int _) | literal (.uint _) => true
  | literal _ => false
  | unary (.unary .neg) x => x.isInteger
  | unary _ _ => false
  | binary (.binary op) x y => !op.yieldsBool && x.isInteger && y.isInteger
  | binary (.unary _) _ _ => false

/-- The value of a tree over the integers. -/
def exact : ConstExpr → Option Int
  | literal (.int n) => some n.toInt
  | literal (.uint n) => some n.toNat
  | literal _ => none
  | unary (.unary op) x => x.exact.bind op.exact
  | unary (.binary _) _ => none
  | binary (.binary op) x y => x.exact.bind fun a => y.exact.bind fun b => op.exact a b
  | binary (.unary _) _ _ => none

/-- By induction on the expression. -/
theorem openInteger_of_eval {e : ConstExpr} {c : Const} (h : e.isInteger = true)
    (hc : e.eval = .ok c) : ∃ z, e.exact = some z ∧ Const.OpenInteger c z := by
  induction e generalizing c with
  | literal l =>
    cases l with
    | int n =>
      obtain rfl := Except.ok.inj hc
      exact ⟨_, rfl, .int n⟩
    | uint n =>
      obtain rfl := Except.ok.inj hc
      exact ⟨_, rfl, .uint n⟩
    | _ => cases h
  | unary op x ih =>
    obtain ⟨cx, hcx, hop⟩ := bind_eq_ok.mp hc
    cases op with
    | unary op =>
      cases op with
      | neg =>
        obtain ⟨a, ha, hopen⟩ := ih h hcx
        have houtcome := Const.neg_openInteger hopen
        split at houtcome
        · obtain ⟨c', hc', hopen'⟩ := houtcome
          obtain rfl := Except.ok.inj (hop.symm.trans hc')
          exact ⟨-a, by rw [exact, ha]; rfl, hopen'⟩
        · obtain ⟨value, ty, herror⟩ := houtcome
          rw [hop] at herror
          cases herror
      | _ => cases h
    | binary op => cases h
  | binary op x y ihx ihy =>
    obtain ⟨cx, hcx, hrest⟩ := bind_eq_ok.mp hc
    obtain ⟨cy, hcy, hop⟩ := bind_eq_ok.mp hrest
    cases op with
    | unary op => cases h
    | binary op =>
      simp only [isInteger, Bool.and_eq_true, Bool.not_eq_true'] at h
      obtain ⟨⟨hyields, hx⟩, hy⟩ := h
      obtain ⟨a, ha, hopenx⟩ := ihx hx hcx
      obtain ⟨b, hb, hopeny⟩ := ihy hy hcy
      obtain ⟨z, hz, hopen⟩ := Const.exact_of_binary hopenx hopeny hyields hop
      exact ⟨z, by rw [exact, ha, hb]; exact hz, hopen⟩

/-- **Folding open integers is exact.** If a tree of arithmetic operators over open integers folds
to a constant, then the constant is open and its value is that of the tree over the integers. It is
stored as an `int` exactly if it is not greater than every `int`, and as a `uint64` exactly if it
is. -/
theorem eval_eq_exact (e : ConstExpr) (h : e.isInteger = true) {c : Const} (hc : e.eval = .ok c) :
    ∃ z, e.exact = some z ∧ c.kind = .untypedInt ∧ c.value.toInt? = some z ∧
      (c.value.kind = .integer .int ↔ z ≤ 2 ^ 63 - 1) ∧
      (c.value.kind = .integer .uint64 ↔ 2 ^ 63 - 1 < z) := by
  obtain ⟨z, hz, hopen⟩ := openInteger_of_eval h hc
  obtain ⟨k, rfl, hfits, rfl⟩ := hopen.stored
  refine ⟨z, hz, rfl, rfl, ?_, ?_⟩
  · rw [Value.kind, Kind.integer.injEq, Const.integerKind_singleton_eq_int]
    rfl
  · rw [Value.kind, Kind.integer.injEq, Const.integerKind_singleton_eq_uint64]
    rfl

/-- `((2^64 - 1) - 2^63) * -1 / 2`. The difference is computed as a `uint64` and is an `int` again;
the quotient of the negative number is cut toward zero. -/
def halved : ConstExpr :=
  .binary (.binary .quo)
    (.binary (.binary .mul)
      (.binary (.binary .sub) (.literal (.uint 18446744073709551615))
        (.literal (.uint 9223372036854775808)))
      (.literal (.int (-1))))
    (.literal (.int 2))

theorem eval_halved :
    halved.isInteger = true ∧ halved.eval = .ok (.int (-4611686018427387903)) ∧
      ∃ z, halved.exact = some z ∧ (Const.int (-4611686018427387903)).value.toInt? = some z := by
  have hc : halved.eval = .ok (.int (-4611686018427387903)) := eq_ok_of_toOption (by decide +kernel)
  obtain ⟨z, hz, -, hvalue, -⟩ := eval_eq_exact halved rfl hc
  exact ⟨rfl, hc, z, hz, hvalue⟩

end ConstExpr

end Lowering
