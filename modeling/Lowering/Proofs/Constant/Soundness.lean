import Lowering.Constant.Expr
import Lowering.Proofs.Evaluate

/-!
# Folding is sound

The kind of a folded constant can be told from the kinds of the leaves and the operators, before
anything is computed: `ConstExpr.kind` tells it. Folding a tree gives a constant of that kind or
an error that a user can be shown, and never a fault.

Four layers rely on each other here. The operator is tested on a stand-in for an open kind
(`Kind.concrete`), the operands are brought to the kind of the computation (`foldKind`), the
operator computes there, and the result is stored again. `accepts_foldKind` says that the test
covers the computation, `yields_toKind` that the operands arrive in the right kind, and
`holds_normalize` that the result can be stored. `yields_foldUnary` and `yields_foldBinary` are the
two cases of a node, and the tree follows by induction.
-/

namespace Lowering

/-! ## Kinds without evaluation -/

/-- The more general of two open kinds: an integer, a float, a complex number, in this order. -/
def Kind.promote : Kind → Kind → Kind
  | .untypedComplex, _ | _, .untypedComplex => .untypedComplex
  | .untypedFloat, _ | _, .untypedFloat => .untypedFloat
  | _, _ => .untypedInt

/-- Of two open kinds the greater one is what promotion gives. -/
theorem Kind.max_eq_promote {k l : Kind} (hk : k.isUntyped = true) (hl : l.isUntyped = true) :
    k.max l = k.promote l := by
  cases k <;> cases hk <;> cases l <;> cases hl <;> rfl

/-- The kind of the result for operands of two kinds: a truth value for comparisons and logical
connectives, the left kind for shifts, and else the kind that is bound, or the more general one. -/
def BinaryOp.foldedKind : BinaryOp → Kind → Kind → Kind
  | .lt, _, _ | .le, _, _ | .gt, _, _ | .ge, _, _ | .eq, _, _ | .ne, _, _ | .lAnd, _, _
  | .lOr, _, _ => .bool
  | .lsh, k, _ | .rsh, k, _ => k
  | _, k, l => if !k.isUntyped then k else if !l.isUntyped then l else k.promote l

theorem BinaryOp.foldedKind_eq (op : BinaryOp) (k l : Kind) :
    op.foldedKind k l =
      if op.yieldsBool then .bool
      else if op.isShift then k
      else if !k.isUntyped then k else if !l.isUntyped then l else k.promote l := by
  cases op <;> rfl

def Literal.kind : Literal → Kind
  | int _ | uint _ => .untypedInt
  | float _ => .untypedFloat
  | complex _ _ => .untypedComplex
  | typed v => v.kind
  | stored _ k => k

/-- Whether the literal has a kind by itself, and not by the choice of a caller. -/
def Literal.isPlain : Literal → Bool
  | stored _ _ => false
  | _ => true

namespace ConstExpr

/-- Whether all leaves are plain and all operators have the operands that they need. -/
def wellFormed : ConstExpr → Bool
  | literal l => l.isPlain
  | unary op x => op.isUnary && x.wellFormed
  | binary op x y => !op.isUnary && x.wellFormed && y.wellFormed

/-- The kind of the constant that a tree folds to. -/
def kind : ConstExpr → Kind
  | literal l => l.kind
  | unary (.unary .not) _ => .bool
  | unary _ x => x.kind
  | binary (.binary op) x y => op.foldedKind x.kind y.kind
  | binary (.unary _) x _ => x.kind

/-- The kind of an expression is known without evaluating it. -/
theorem kind_unary (op : UnaryOp) (x : ConstExpr) :
    (unary (.unary op) x).kind = op.resultKind x.kind := by
  cases op <;> rfl

/-- Whether all leaves are open. -/
def leavesOpen : ConstExpr → Bool
  | literal l => l.kind.isUntyped
  | unary _ x => x.leavesOpen
  | binary _ x y => x.leavesOpen && y.leavesOpen

/-- Whether the operands of the outermost operator are open. -/
def operandsOpen : ConstExpr → Bool
  | literal l => l.kind.isUntyped
  | unary _ x => x.kind.isUntyped
  | binary _ x y => x.kind.isUntyped && y.kind.isUntyped

end ConstExpr

namespace Const

variable {k real : Kind} {v u : Value} {c x y : Const} {wide : Bool}

/-! ## Stored constants -/

/-- The constant is as `make` makes it: it holds a value of the right form and owns no place. -/
def Valid (c : Const) : Prop := make c.value c.kind = .ok c

theorem valid_of_holds (h : holds k v = true) : Valid { value := v, kind := k } := by
  rw [Valid, make, if_pos h]

theorem Valid.holds (h : c.Valid) : Const.holds c.kind c.value = true := by
  rw [Valid, make] at h
  split at h
  · assumption
  · cases h

theorem Valid.reservation (h : c.Valid) : c.reservation = none := by
  have hholds := h.holds
  rw [Valid, make, if_pos hholds] at h
  rw [← Except.ok.inj h]

/-- A bound constant has the kind of its value. -/
theorem Valid.kind_value (h : c.Valid) (hbound : c.isBound = true) : c.value.kind = c.kind := by
  have hholds := h.holds
  have hkind : c.kind.isUntyped = false := by simpa [isBound] using hbound
  cases hk : c.kind with
  | untypedInt | untypedFloat | untypedComplex =>
    rw [hk] at hkind
    cases hkind
  | _ =>
    rw [hk] at hholds
    exact beq_iff_eq.mp hholds

theorem valid_typed (v : Value) : (typed v).Valid := by
  apply valid_of_holds
  cases v <;> exact beq_self_eq_true _

theorem valid_uint (n : UInt64) : (uint n).Valid ∧ (uint n).kind = .untypedInt := by
  unfold uint
  split
  · exact ⟨valid_of_holds rfl, rfl⟩
  · exact ⟨valid_of_holds rfl, rfl⟩

/-! ## Operands -/

/-- A representation in a kind is of that kind. -/
theorem kind_of_represent (h : v.represent k = .ok u) (hk : k ≠ .interface) : u.kind = k := by
  unfold Value.represent at h
  split at h
  · next hsame =>
    obtain rfl := Except.ok.inj h
    exact (hsame.resolve_left hk).symm
  · split at h
    · next i =>
      split at h
      · next z _ =>
        unfold Value.integer? at h
        split at h
        · obtain rfl := Except.ok.inj h
          rfl
        · cases h
      · cases h
    · next p =>
      split at h
      · cases h
      · split at h
        · cases h
        · split at h
          · cases h
          · obtain rfl := Except.ok.inj h
            rfl
    · next p =>
      split at h
      · cases h
      · split at h
        · cases h
        · obtain rfl := Except.ok.inj h
          rfl
    · cases h

theorem yields_toKind (hk : k.isBasic = true) : Yields (fun u => u.kind = k) (toKind v k) := by
  unfold toKind
  cases hr : v.represent k with
  | ok u =>
    refine kind_of_represent hr ?_
    rintro rfl
    cases hk
  | error e =>
    simp only [typeOfKind, Ty.ofKind?, if_pos hk]
    trivial

/-- Operators do not tell integer kinds apart. -/
theorem accepts_integer (op : Operator) (i j : IntKind) :
    op.accepts (.integer i) = op.accepts (.integer j) := by
  rcases op with op | op <;> cases op <;> rfl

/-- An operator that accepts the stand-in of a kind accepts the kind of the computation. -/
theorem accepts_foldKind {op : Operator} (h : op.accepts k.concrete = true) :
    op.accepts (foldKind k wide) = true := by
  cases k with
  | untypedInt =>
    -- Tested as `int64`, computed as `int` or `uint64`.
    rw [foldKind]
    split
    · exact (accepts_integer op _ _).trans h
    · exact (accepts_integer op _ _).trans h
  | _ => exact h

/-- What an operator accepts has a type of its own. -/
theorem isBasic_of_accepts {op : Operator} (h : op.accepts k = true) : k.isBasic = true := by
  cases k with
  | bool | integer _ | float _ | complex _ | string | unsafePointer => rfl
  | _ => rcases op with op | op <;> cases op <;> cases h

theorem checkUnreserved_eq_ok (hx : x.Valid) (isUnary : Bool) :
    checkUnreserved isUnary x = .ok () := by
  rw [checkUnreserved, isReserved, hx.reservation]
  rfl

theorem yields_checkUnreserved (hx : x.Valid) (isUnary : Bool) :
    Yields (fun _ => True) (checkUnreserved isUnary x) := by
  rw [checkUnreserved_eq_ok hx]
  trivial

/-! ## Results -/

/-- The kind of the result follows the kind of the computation. -/
theorem resultKind_foldKind (op : Operator) (k : Kind) (wide : Bool) :
    op.resultKind (foldKind k wide) = foldKind (op.resultKind k) wide := by
  rcases op with op | op
  · cases op <;> rfl
  · show (if op.yieldsBool then _ else _) = foldKind (if op.yieldsBool then _ else _) wide
    split <;> rfl

/-- A result can be stored in the kind that the computation stands for. -/
theorem holds_normalize (h : v.kind = foldKind k wide) : holds k (normalize k v) = true := by
  cases k with
  | untypedInt =>
    cases v with
    | integer i z hz =>
      cases i with
      | uint64 =>
        rw [normalize, Value.integer?]
        split <;> rfl
      | int => rfl
      | _ => cases wide <;> cases h
    | _ => cases wide <;> cases h
  | _ => exact beq_iff_eq.mpr h

/-- A result is stored in the form that its kind has. -/
theorem yields_folded {op : Operator} (h : v.kind = foldKind (op.resultKind k) wide) :
    Yields (fun c => c.Valid ∧ c.kind = op.resultKind k) (folded op k v) := by
  have hholds := holds_normalize h
  rw [folded, make, if_pos hholds]
  exact ⟨valid_of_holds hholds, rfl⟩

/-- Where the evaluation yields a value, folding yields a constant. -/
theorem yields_compute {op : Operator} {args : List Value}
    (h : Yields (fun v => v.kind = op.resultKind (foldKind k wide))
      (Evaluate.apply (foldKind k wide) op args)) :
    Yields (fun c => c.Valid ∧ c.kind = op.resultKind k)
      (compute op k (foldKind k wide) args) := by
  rw [compute]
  rcases yields_iff.mp h with ⟨v, hv, hkind⟩ | ⟨e, he⟩
  · rw [hv]
    exact yields_folded (hkind.trans (resultKind_foldKind op k wide))
  · rw [he]
    trivial

/-! ## One operator -/

theorem yields_foldUnary {op : UnaryOp} (hx : x.Valid) :
    Yields (fun c => c.Valid ∧ c.kind = op.resultKind x.kind) (foldUnary op x) := by
  unfold foldUnary
  refine (yields_checkUnreserved hx true).bind fun _ _ => yields_refusal fun haccepts => ?_
  have hop : op.accepts x.kind.concrete = true := by simpa using haccepts
  have hreal : (Operator.unary op).accepts (foldKind x.kind x.isWide) = true :=
    accepts_foldKind hop
  refine (yields_toKind (isBasic_of_accepts hreal)).bind fun vx hvx => ?_
  exact yields_compute (Evaluate.yields_apply_unary hvx hreal)

/-- The governing kind decides the kind of the result. -/
theorem resultKind_of_governingKind {op : BinaryOp} (h : governingKind op x y = .ok k) :
    op.resultKind k = op.foldedKind x.kind y.kind := by
  rw [BinaryOp.resultKind, BinaryOp.foldedKind_eq]
  split
  · rfl
  · unfold governingKind isBound at h
    split at h
    · next hshift =>
      rw [if_pos hshift]
      exact (Except.ok.inj h).symm
    · next hshift =>
      rw [if_neg hshift]
      cases hx : x.kind.isUntyped with
      | false =>
        rw [hx] at h
        cases hy : y.kind.isUntyped with
        | false =>
          rw [hy] at h
          change (if x.kind = y.kind then Except.ok x.kind else _) = Except.ok k at h
          split at h
          · exact (Except.ok.inj h).symm
          · cases h
        | true =>
          rw [hy] at h
          exact (Except.ok.inj h).symm
      | true =>
        rw [hx] at h
        cases hy : y.kind.isUntyped with
        | false =>
          rw [hy] at h
          exact (Except.ok.inj h).symm
        | true =>
          rw [hy] at h
          rw [← Kind.max_eq_promote hx hy]
          exact (Except.ok.inj h).symm

/-- The governing kind settles the kind of the result. -/
theorem yields_governingKind (op : BinaryOp) (x y : Const) :
    Yields (fun k => op.resultKind k = op.foldedKind x.kind y.kind)
      ((governingKind op x y).mapError Failure.error) := by
  cases h : governingKind op x y with
  | ok k => exact resultKind_of_governingKind h
  | error e => trivial

/-- The count of a shift is an integer. -/
theorem yields_shiftCount {op : BinaryOp} (hy : y.Valid) :
    Yields (fun v => v.kind.isInteger = true) (shiftCount op y) := by
  unfold shiftCount
  split
  · next hbound =>
    split
    · next hinteger =>
      show y.value.kind.isInteger = true
      rw [hy.kind_value hbound]
      exact hinteger
    · trivial
  · split
    · next hkind =>
      show y.value.kind.isInteger = true
      rcases hkind with hkind | hkind <;> rw [hkind] <;> rfl
    · refine Yields.imp (yields_toKind rfl) fun v hv => ?_
      rw [hv]
      rfl

/-- Both operands are converted first, and each conversion may fail. -/
theorem yields_foldBinary {op : BinaryOp} (hx : x.Valid) (hy : y.Valid) :
    Yields (fun c => c.Valid ∧ c.kind = op.foldedKind x.kind y.kind) (foldBinary op x y) := by
  unfold foldBinary
  refine (yields_checkUnreserved hx false).bind fun _ _ => ?_
  refine (yields_checkUnreserved hy false).bind fun _ _ => ?_
  refine (yields_governingKind op x y).bind fun k hk => ?_
  rw [← hk]
  -- A shift leaves its count in a kind of its own, so the two operands are treated apart.
  cases hshift : op.isShift with
  | true =>
    refine yields_refusal fun haccepts => ?_
    have hop : op.accepts k.concrete = true := by simpa using haccepts
    have hreal : (Operator.binary op).accepts (foldKind k x.isWide) = true := accepts_foldKind hop
    refine (yields_shiftCount hy).bind fun vy hvy => ?_
    refine (yields_toKind (isBasic_of_accepts hreal)).bind fun vx hvx => ?_
    refine yields_compute (Evaluate.yields_apply_binary hvx hreal (fun _ => hvy) fun h => ?_)
    rw [hshift] at h
    cases h
  | false =>
    refine yields_refusal fun haccepts => ?_
    have hop : op.accepts k.concrete = true := by simpa using haccepts
    have hreal : (Operator.binary op).accepts (foldKind k (x.isWide || y.isWide)) = true :=
      accepts_foldKind hop
    refine (yields_toKind (isBasic_of_accepts hreal)).bind fun vy hvy => ?_
    refine (yields_toKind (isBasic_of_accepts hreal)).bind fun vx hvx => ?_
    refine yields_compute (Evaluate.yields_apply_binary hvx hreal (fun h => ?_) fun _ => hvy)
    rw [hshift] at h
    cases h

end Const

/-! ## Trees -/

namespace ConstExpr

theorem yields_literal {l : Literal} (h : l.isPlain = true) :
    Yields (fun c => c.Valid ∧ c.kind = l.kind) (literal l).eval := by
  cases l with
  | int n => exact ⟨Const.valid_of_holds rfl, rfl⟩
  | uint n => exact Const.valid_uint n
  | float x => exact ⟨Const.valid_of_holds rfl, rfl⟩
  | complex re im => exact ⟨Const.valid_of_holds rfl, rfl⟩
  | typed v => exact ⟨Const.valid_typed v, rfl⟩
  | stored v k => cases h

/-- By induction on the expression. -/
theorem yields_eval {e : ConstExpr} (h : e.wellFormed = true) :
    Yields (fun c => c.Valid ∧ c.kind = e.kind) e.eval := by
  induction e with
  | literal l => exact yields_literal h
  | unary op x ih =>
    simp only [wellFormed, Bool.and_eq_true] at h
    obtain ⟨hop, hx⟩ := h
    cases op with
    | unary op =>
      refine (ih hx).bind fun a ha => ?_
      rw [kind_unary, ← ha.2]
      exact Const.yields_foldUnary ha.1
    | binary op => cases hop
  | binary op x y ihx ihy =>
    simp only [wellFormed, Bool.and_eq_true] at h
    obtain ⟨⟨hop, hx⟩, hy⟩ := h
    cases op with
    | unary op => cases hop
    | binary op =>
      refine (ihx hx).bind fun a ha => ?_
      refine (ihy hy).bind fun b hb => ?_
      rw [kind, ← ha.2, ← hb.2]
      exact Const.yields_foldBinary ha.1 hb.1

/-! ## Open constants -/

/-- Operators keep open kinds open, or answer with a truth value. -/
theorem isUntyped_or_bool_foldedKind {op : BinaryOp} {k l : Kind}
    (hk : k.isUntyped = true ∨ k = .bool) (hl : l.isUntyped = true ∨ l = .bool) :
    (op.foldedKind k l).isUntyped = true ∨ op.foldedKind k l = .bool := by
  rw [BinaryOp.foldedKind_eq]
  split
  · exact .inr rfl
  · split
    · exact hk
    · split
      · exact hk
      · split
        · exact hl
        · left
          unfold Kind.promote
          split <;> rfl

theorem isUntyped_or_bool_resultKind {op : UnaryOp} {k : Kind}
    (hk : k.isUntyped = true ∨ k = .bool) :
    (op.resultKind k).isUntyped = true ∨ op.resultKind k = .bool := by
  cases op with
  | not => exact .inr rfl
  | neg | bitNot => exact hk

theorem isUntyped_or_bool_of_operandsOpen {e : ConstExpr} (h : e.wellFormed = true)
    (hopen : e.operandsOpen = true) : e.kind.isUntyped = true ∨ e.kind = .bool := by
  cases e with
  | literal l => exact .inl hopen
  | unary op x =>
    cases op with
    | unary op =>
      rw [kind_unary]
      exact isUntyped_or_bool_resultKind (.inl hopen)
    | binary op => cases h
  | binary op x y =>
    cases op with
    | unary op => cases h
    | binary op =>
      simp only [operandsOpen, Bool.and_eq_true] at hopen
      exact isUntyped_or_bool_foldedKind (.inl hopen.1) (.inl hopen.2)

theorem isUntyped_or_bool_of_leavesOpen {e : ConstExpr} (h : e.wellFormed = true)
    (hopen : e.leavesOpen = true) : e.kind.isUntyped = true ∨ e.kind = .bool := by
  induction e with
  | literal l => exact .inl hopen
  | unary op x ih =>
    simp only [wellFormed, Bool.and_eq_true] at h
    cases op with
    | unary op =>
      rw [kind_unary]
      exact isUntyped_or_bool_resultKind (ih h.2 hopen)
    | binary op => cases h.1
  | binary op x y ihx ihy =>
    simp only [wellFormed, Bool.and_eq_true] at h
    simp only [leavesOpen, Bool.and_eq_true] at hopen
    cases op with
    | unary op => cases h.1.1
    | binary op => exact isUntyped_or_bool_foldedKind (ihx h.1.2 hopen.1) (ihy h.2 hopen.2)

/-! ## Soundness -/

/-- **Folding is sound.** A tree of plain literals whose operators have the operands that they need
folds to a constant of the kind that `kind` tells beforehand, in the form in which constants of this
kind are stored, or ends in an error for the user; it never ends in a fault. If all operands of the
outermost operator are open, or all leaves are, then the constant is open or a truth value. -/
theorem eval_kind_or_error (e : ConstExpr) (h : e.wellFormed = true) :
    (∃ c, e.eval = .ok c ∧ c.kind = e.kind ∧ Const.make c.value c.kind = .ok c ∧
      (e.operandsOpen = true ∨ e.leavesOpen = true → c.kind.isUntyped = true ∨ c.kind = .bool)) ∨
    ∃ error : CompileError, e.eval = .error (.error error) := by
  rcases yields_iff.mp (yields_eval h) with ⟨c, hc, hvalid, hkind⟩ | herror
  · refine .inl ⟨c, hc, hkind, hvalid, fun hopen => ?_⟩
    rw [hkind]
    rcases hopen with hopen | hopen
    · exact isUntyped_or_bool_of_operandsOpen h hopen
    · exact isUntyped_or_bool_of_leavesOpen h hopen
  · exact .inr herror

/-- `-(1 << 3) + 9`, where the count of the shift is a `uint8` and all else is open. -/
def shifted : ConstExpr :=
  .binary (.binary .add)
    (.unary (.unary .neg)
      (.binary (.binary .lsh) (.literal (.int 1))
        (.literal (.typed (.integer .uint8 3 (by decide))))))
    (.literal (.int 9))

theorem eval_shifted :
    shifted.wellFormed = true ∧ ∃ c, shifted.eval = .ok c ∧ c.kind = .untypedInt := by
  refine ⟨rfl, ?_⟩
  rcases eval_kind_or_error shifted rfl with ⟨c, hc, hkind, -⟩ | ⟨error, herror⟩
  · exact ⟨c, hc, hkind⟩
  · cases herror

end ConstExpr

end Lowering
