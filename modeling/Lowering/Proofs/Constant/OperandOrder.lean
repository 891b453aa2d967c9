import Lowering.Proofs.Constant.Soundness
import Lowering.Proofs.Run

/-!
# The order of operands

Some operators give the same result when their operands change places, others have a converse that
does: `x < y` says what `y > x` says (`BinaryOp.converse?`). For integers this is a fact about words
and for strings one about their order; `binary_converse` has both.

Constants are not symmetric at first sight. The governing kind is found by looking at the left
operand first, the right operand is converted before the left one, and open integers have two forms.
`Aligned` is what all of this comes to, and it can be turned around (`Aligned.symm`). An operator
succeeds exactly if the operands can be aligned, it accepts their kind, and the computation succeeds
(`foldBinary_eq_ok_iff`), so an operator and its converse succeed together.

Main statement: `binary_operand_order`.
-/

namespace Lowering

/-! ## Converse operators -/

/-- The operator that does the same to exchanged operands, be they integers or, for comparisons,
strings. -/
def BinaryOp.converse? : BinaryOp → Option BinaryOp
  | .add => some .add
  | .mul => some .mul
  | .and => some .and
  | .or => some .or
  | .xor => some .xor
  | .eq => some .eq
  | .ne => some .ne
  | .lt => some .gt
  | .gt => some .lt
  | .le => some .ge
  | .ge => some .le
  | _ => none

namespace BinaryOp

variable {op op' : BinaryOp}

/-- Exchanging operands twice changes nothing. -/
theorem converse?_symm (h : op.converse? = some op') : op'.converse? = some op := by
  cases op <;> cases h <;> rfl

theorem isShift_of_converse? (h : op.converse? = some op') : op.isShift = false := by
  cases op <;> cases h <;> rfl

/-- Both ways round, an operation is defined for the same kinds. -/
theorem accepts_of_converse? (h : op.converse? = some op') (k : Kind) :
    op'.accepts k = op.accepts k := by
  cases op <;> cases h <;> rfl

theorem yieldsBool_of_converse? (h : op.converse? = some op') : op'.yieldsBool = op.yieldsBool := by
  cases op <;> cases h <;> rfl

theorem resultKind_of_converse? (h : op.converse? = some op') (k : Kind) :
    op'.resultKind k = op.resultKind k := by
  cases op <;> cases h <;> rfl

end BinaryOp

namespace Word

theorem add?_comm (x y : Word) : x.add? y = y.add? x := by
  have hoverflow : x.saddOverflow y = y.saddOverflow x := by
    simp only [BitVec.saddOverflow, Int.add_comm]
  rw [add?, add?, hoverflow, BitVec.add_comm]

theorem mul?_comm (x y : Word) : x.mul? y = y.mul? x := by
  have hoverflow : x.smulOverflow y = y.smulOverflow x := by
    simp only [BitVec.smulOverflow, Int.mul_comm]
  rw [mul?, mul?, hoverflow, BitVec.mul_comm]

end Word

namespace Evaluate

variable {op op' : BinaryOp} {a b v : Value} {kind : Kind}

/-- By the operation, of which the others have no converse. -/
theorem wordBinary_converse (h : op.converse? = some op') (k : IntKind) (x y : Word) :
    wordBinary k x y op = wordBinary k y x op' := by
  cases op with
  | add =>
    obtain rfl := Option.some.inj h
    rw [wordBinary, wordBinary, Word.add?_comm]
  | mul =>
    obtain rfl := Option.some.inj h
    rw [wordBinary, wordBinary, Word.mul?_comm]
  | and =>
    obtain rfl := Option.some.inj h
    rw [wordBinary, wordBinary, BitVec.and_comm]
  | or =>
    obtain rfl := Option.some.inj h
    rw [wordBinary, wordBinary, BitVec.or_comm]
  | xor =>
    obtain rfl := Option.some.inj h
    rw [wordBinary, wordBinary, BitVec.xor_comm]
  | eq =>
    obtain rfl := Option.some.inj h
    rw [wordBinary, wordBinary, BEq.comm]
  | ne =>
    obtain rfl := Option.some.inj h
    rw [wordBinary, wordBinary, bne_comm]
  | lt | le | gt | ge =>
    obtain rfl := Option.some.inj h
    rfl
  | _ => cases h

/-- Strings can be compared both ways round, but the sum of two depends on their order. -/
theorem stringBinary_converse (h : op.converse? = some op') (hop : op.yieldsBool = true)
    (x y : String) : stringBinary x y op = stringBinary y x op' := by
  cases op with
  | eq =>
    obtain rfl := Option.some.inj h
    rw [stringBinary, stringBinary, BEq.comm]
  | ne =>
    obtain rfl := Option.some.inj h
    rw [stringBinary, stringBinary, bne_comm]
  | lt | le | gt | ge =>
    obtain rfl := Option.some.inj h
    rfl
  | add | mul | and | or | xor => cases hop
  | _ => cases h

/-- The kind is one whose operands `op` may find in either order: an integer kind or, for a
comparison, that of strings. -/
def Exchanges (op : BinaryOp) (k : Kind) : Prop :=
  k.isInteger = true ∨ k = .string ∧ op.yieldsBool = true

/-- An operation on exchanged operands gives the same outcome, errors included. -/
theorem binary_converse (h : op.converse? = some op') (ha : a.kind = kind) (hb : b.kind = kind)
    (hkind : Exchanges op kind) : binary op a b = binary op' b a := by
  subst ha
  cases a with
  | integer k x hx =>
    cases b with
    | integer l y hy =>
      obtain rfl : l = k := Kind.integer.inj hb
      rw [binary, binary, if_pos (.inl rfl), if_pos (.inl rfl), integerBinary, integerBinary,
        wordBinary_converse h]
    | _ => cases hb
  | string x =>
    cases b with
    | string y =>
      rcases hkind with hinteger | ⟨-, hop⟩
      · cases hinteger
      · exact stringBinary_converse h hop x y
    | _ => cases hb
  | _ =>
    rcases hkind with hinteger | ⟨hstring, -⟩
    · cases hinteger
    · cases hstring

/-! ## Exactly one comparison holds -/

/-- Of three cases that exclude each other and of which one holds. -/
theorem count_true_eq_one {p q r : Prop} [Decidable p] [Decidable q] [Decidable r]
    (h : p ∨ q ∨ r) (hpq : p → ¬ q) (hpr : p → ¬ r) (hqr : q → ¬ r) :
    [decide p, decide q, decide r].count true = 1 := by
  rcases h with hp | hq | hr
  · simp [hp, hpq hp, hpr hp]
  · have hp : ¬ p := fun hp => hpq hp hq
    simp [hp, hq, hqr hq]
  · have hp : ¬ p := fun hp => hpr hp hr
    have hq : ¬ q := fun hq => hqr hq hr
    simp [hp, hq, hr]

/-- Of two integers or strings the one is less, equal or greater, and only one of these. -/
theorem binary_trichotomy (ha : a.kind = kind) (hb : b.kind = kind)
    (hkind : Exchanges .lt kind) :
    ∃ s t u, binary .lt a b = some (.ok (.bool s)) ∧ binary .eq a b = some (.ok (.bool t)) ∧
      binary .gt a b = some (.ok (.bool u)) ∧ [s, t, u].count true = 1 := by
  subst ha
  cases a with
  | integer k x hx =>
    cases b with
    | integer l y hy =>
      obtain rfl : l = k := Kind.integer.inj hb
      have hone : [decide (x < y), decide (x = y), decide (y < x)].count true = 1 :=
        count_true_eq_one (by omega) (by omega) (by omega) (by omega)
      simp only [binary, true_or, if_true]
      exact ⟨_, _, _, integerBinary_eq_compare hx hy rfl, integerBinary_eq_compare hx hy rfl,
        integerBinary_eq_compare hx hy rfl, hone⟩
    | _ => cases hb
  | string x =>
    cases b with
    | string y =>
      have htotal : x < y ∨ x = y ∨ y < x := by
        by_cases hlt : x < y
        · exact .inl hlt
        · by_cases hgt : y < x
          · exact .inr (.inr hgt)
          · exact .inr (.inl (String.le_antisymm (String.not_lt.mp hgt) (String.not_lt.mp hlt)))
      refine ⟨_, _, _, rfl, rfl, rfl, count_true_eq_one htotal ?_ String.lt_asymm ?_⟩
      · rintro hlt rfl
        exact String.lt_irrefl x hlt
      · rintro rfl
        exact String.lt_irrefl x
    | _ => cases hb
  | _ =>
    rcases hkind with hinteger | ⟨hstring, -⟩
    · cases hinteger
    · cases hstring

theorem apply_binary_of_kind (hop : op.isShift = false) (ha : a.kind = kind) (hb : b.kind = kind) :
    apply kind (.binary op) [a, b] = settle (.binary op) kind (binary op a b) := by
  rw [apply, if_neg (not_not_intro ha), if_neg (by simp [hop, hb])]

theorem settle_eq_ok_iff {o : Operator} {outcome : Option (Except EvalError Value)} :
    settle o kind outcome = .ok v ↔ outcome = some (.ok v) := by
  rcases outcome with _ | _ | w
  · simp [settle]
  · simp [settle]
  · simp [settle]

end Evaluate

/-- The greater of two kinds does not depend on their order. -/
theorem Kind.max_comm (k l : Kind) : k.max l = l.max k := by
  unfold Kind.max
  by_cases h : k.rank ≤ l.rank
  · by_cases h' : l.rank ≤ k.rank
    · have hrank : ofRank? k.rank = ofRank? l.rank := by rw [Nat.le_antisymm h h']
      rw [ofRank?_rank, ofRank?_rank] at hrank
      rw [Option.some.inj hrank]
    · rw [if_pos h, if_neg h']
  · rw [if_neg h, if_pos (Nat.le_of_not_le h)]

namespace Const

variable {x y c : Const} {op op' : BinaryOp} {k : Kind} {v vx vy u : Value}

/-! ## Operands in one kind -/

theorem valid_of_const {l : Literal} (h : l.const = .ok c) : c.Valid := by
  cases l with
  | int n | float z | complex re im =>
    obtain rfl := Except.ok.inj h
    exact valid_of_holds rfl
  | uint n =>
    obtain rfl := Except.ok.inj h
    exact (valid_uint n).1
  | typed v =>
    obtain rfl := Except.ok.inj h
    exact valid_typed v
  | stored v k =>
    change make v k = .ok c at h
    unfold make at h
    split at h
    · next hholds =>
      obtain rfl := Except.ok.inj h
      exact valid_of_holds hholds
    · cases h

/-- `k` governs the operators on `x` and `y`, shifts apart, and `vx` and `vy` are the operands in
the kind of the computation. -/
structure Aligned (x y : Const) (k : Kind) (vx vy : Value) : Prop where
  governs : ∀ op : BinaryOp, op.isShift = false → governingKind op x y = .ok k
  left : x.value.represent (foldKind k (x.isWide || y.isWide)) = .ok vx
  right : y.value.represent (foldKind k (x.isWide || y.isWide)) = .ok vy

/-- Only shifts are governed in another way. -/
theorem governingKind_congr (x y : Const) (hop : op.isShift = false) (hop' : op'.isShift = false) :
    governingKind op x y = governingKind op' x y := by
  unfold governingKind
  rw [hop, hop']

/-- Which operand settles the kind does not depend on their order, shifts apart. -/
theorem governingKind_comm (h : governingKind op x y = .ok k) (hop : op.isShift = false) :
    governingKind op y x = .ok k := by
  have hshift : ¬ op.isShift = true := by simp [hop]
  unfold governingKind at h ⊢
  rw [if_neg hshift] at h ⊢
  cases hx : x.isBound with
  | true =>
    cases hy : y.isBound with
    | true =>
      simp only [hx, hy] at h ⊢
      split at h
      · next hsame => rw [if_pos hsame.symm, ← hsame, h]
      · cases h
    | false => simpa only [hx, hy] using h
  | false =>
    cases hy : y.isBound with
    | true => simpa only [hx, hy] using h
    | false => simpa only [hx, hy, Kind.max_comm] using h

/-- Operands that are aligned stay so when they are exchanged. -/
theorem Aligned.symm (h : Aligned x y k vx vy) : Aligned y x k vy vx where
  governs op hop := governingKind_comm (h.governs op hop) hop
  left := Bool.or_comm x.isWide y.isWide ▸ h.right
  right := Bool.or_comm x.isWide y.isWide ▸ h.left

/-! ## When an operator succeeds -/

theorem toKind_eq_ok_iff : toKind v k = .ok u ↔ v.represent k = .ok u := by
  unfold toKind
  cases v.represent k with
  | ok w => simp
  | error e => cases typeOfKind k <;> simp

/-- Constants are combined if they can be aligned and the operation is defined for their kind. -/
theorem foldBinary_eq_ok_iff (hx : x.Valid) (hy : y.Valid) (hop : op.isShift = false) :
    foldBinary op x y = .ok c ↔ ∃ k vx vy, Aligned x y k vx vy ∧ op.accepts k.concrete = true ∧
      compute (.binary op) k (foldKind k (x.isWide || y.isWide)) [vx, vy] = .ok c := by
  unfold foldBinary
  rw [checkUnreserved_eq_ok hx, checkUnreserved_eq_ok hy, hop]
  constructor
  · intro h
    obtain ⟨_, -, h⟩ := bind_eq_ok.mp h
    obtain ⟨_, -, h⟩ := bind_eq_ok.mp h
    obtain ⟨k, hk, h⟩ := bind_eq_ok.mp h
    change (if !op.accepts k.concrete then _ else _) = _ at h
    split at h
    · cases h
    · next haccepts =>
      obtain ⟨vy, hvy, h⟩ := bind_eq_ok.mp h
      obtain ⟨vx, hvx, h⟩ := bind_eq_ok.mp h
      refine ⟨k, vx, vy, ⟨?_, toKind_eq_ok_iff.mp hvx, toKind_eq_ok_iff.mp hvy⟩, ?_, h⟩
      · intro op' hop'
        rw [governingKind_congr x y hop' hop]
        cases hgoverns : governingKind op x y with
        | ok k' =>
          rw [hgoverns] at hk
          exact congrArg Except.ok (Except.ok.inj hk)
        | error e =>
          rw [hgoverns] at hk
          cases hk
      · simpa using haccepts
  · rintro ⟨k, vx, vy, haligned, haccepts, h⟩
    rw [haligned.governs op hop]
    show (if !op.accepts k.concrete then _ else _) = _
    rw [haccepts]
    refine bind_eq_ok.mpr ⟨vy, toKind_eq_ok_iff.mpr haligned.right, ?_⟩
    exact bind_eq_ok.mpr ⟨vx, toKind_eq_ok_iff.mpr haligned.left, h⟩

theorem compute_eq_ok_iff {o : Operator} {real : Kind} {args : List Value} :
    compute o k real args = .ok c ↔
      ∃ v, Evaluate.apply real o args = .ok v ∧ folded o k v = .ok c := by
  unfold compute
  rcases Evaluate.apply real o args with (e | f) | v
  · simp
  · simp
  · simp

/-! ## Exchanged operands -/

/-- An open integer is computed in one of two kinds, both of them integer kinds. -/
theorem exchanges_foldKind (h : Evaluate.Exchanges op k.concrete) (wide : Bool) :
    Evaluate.Exchanges op (foldKind k wide) := by
  cases k with
  | untypedInt => cases wide <;> exact .inl rfl
  | _ => exact h

/-- Aligned operands that an operator accepts are of the kind of the computation. -/
theorem Aligned.kinds (h : Aligned x y k vx vy) (haccepts : op.accepts k.concrete = true) :
    vx.kind = foldKind k (x.isWide || y.isWide) ∧ vy.kind = foldKind k (x.isWide || y.isWide) := by
  have hreal : (Operator.binary op).accepts (foldKind k (x.isWide || y.isWide)) = true :=
    accepts_foldKind haccepts
  have hne : foldKind k (x.isWide || y.isWide) ≠ .interface := by
    intro hinterface
    have hbasic := isBasic_of_accepts hreal
    rw [hinterface] at hbasic
    cases hbasic
  exact ⟨kind_of_represent h.left hne, kind_of_represent h.right hne⟩

/-- If a kind governs the operators on `x` and `y`, shifts apart, then one with the property. There
is no such kind if the operands are bound to different ones. -/
def Governed (p : Kind → Bool) (x y : Const) : Prop :=
  ∀ (op : BinaryOp) (k : Kind), op.isShift = false → governingKind op x y = .ok k →
    p k.concrete = true

/-- Computing on exchanged operands gives the same result. -/
theorem compute_converse (h : op.converse? = some op') {real : Kind} (hvx : vx.kind = real)
    (hvy : vy.kind = real) (hkind : Evaluate.Exchanges op real)
    (hc : compute (.binary op) k real [vx, vy] = .ok c) :
    compute (.binary op') k real [vy, vx] = .ok c := by
  have hop := BinaryOp.isShift_of_converse? h
  have hop' := BinaryOp.isShift_of_converse? (BinaryOp.converse?_symm h)
  obtain ⟨v, hv, hfolded⟩ := compute_eq_ok_iff.mp hc
  rw [Evaluate.apply_binary_of_kind hop hvx hvy, Evaluate.settle_eq_ok_iff,
    Evaluate.binary_converse h hvx hvy hkind] at hv
  refine compute_eq_ok_iff.mpr ⟨v, ?_, ?_⟩
  · rw [Evaluate.apply_binary_of_kind hop' hvy hvx, Evaluate.settle_eq_ok_iff, hv]
  · have hresult : (Operator.binary op').resultKind k = (Operator.binary op).resultKind k :=
      BinaryOp.resultKind_of_converse? h k
    rw [← hfolded, folded, folded, hresult]

/-- Combining exchanged constants gives the same result. -/
theorem foldBinary_converse (hx : x.Valid) (hy : y.Valid) (h : op.converse? = some op')
    (hkind : ∀ k, governingKind op x y = .ok k → Evaluate.Exchanges op k.concrete)
    (hc : foldBinary op x y = .ok c) : foldBinary op' y x = .ok c := by
  have hop := BinaryOp.isShift_of_converse? h
  have hop' := BinaryOp.isShift_of_converse? (BinaryOp.converse?_symm h)
  obtain ⟨k, vx, vy, haligned, haccepts, hcompute⟩ := (foldBinary_eq_ok_iff hx hy hop).mp hc
  obtain ⟨hvx, hvy⟩ := haligned.kinds haccepts
  have hexchanges : Evaluate.Exchanges op (foldKind k (x.isWide || y.isWide)) :=
    exchanges_foldKind (hkind k (haligned.governs op hop)) _
  refine (foldBinary_eq_ok_iff hy hx hop').mpr ⟨k, vy, vx, haligned.symm, ?_, ?_⟩
  · rw [BinaryOp.accepts_of_converse? h, haccepts]
  · rw [Bool.or_comm]
    exact compute_converse h hvx hvy hexchanges hcompute

/-! ## Outcomes -/

/-- The computation ends in an error that is not a fault. -/
def Fails (outcome : Except (Failure CompileError) Const) : Prop :=
  ∃ e : CompileError, outcome = .error (.error e)

/-- Both computations have the same result, one with the property `P`, or both fail. -/
def Agree (P : Const → Prop) (a b : Except (Failure CompileError) Const) : Prop :=
  (∃ c, P c ∧ a = .ok c ∧ b = .ok c) ∨ Fails a ∧ Fails b

/-- The constant is a truth value. -/
def IsTruth (c : Const) : Prop := ∃ t : Bool, c = .typed (.bool t)

theorem Agree.imp {P Q : Const → Prop} {a b : Except (Failure CompileError) Const}
    (h : Agree P a b) (hPQ : ∀ c, P c → Q c) : Agree Q a b := by
  rcases h with ⟨c, hP, ha, hb⟩ | hfail
  · exact .inl ⟨c, hPQ c hP, ha, hb⟩
  · exact .inr hfail

theorem Agree.eq_ok {P : Const → Prop} {a b : Except (Failure CompileError) Const}
    (h : Agree P a b) (ha : a = .ok c) : b = .ok c := by
  rcases h with ⟨d, -, hd, hb⟩ | ⟨⟨e, he⟩, -⟩
  · rw [hb, ← hd, ha]
  · rw [ha] at he
    cases he

/-- Two computations that do not panic agree if each gives what the other gives. -/
theorem agree_of_ok {P Q : Const → Prop} {a b : Except (Failure CompileError) Const}
    (ha : Yields P a) (hb : Yields Q b) (hab : ∀ c, a = .ok c → b = .ok c)
    (hba : ∀ c, b = .ok c → a = .ok c) : Agree P a b := by
  rcases yields_iff.mp ha with ⟨c, hc, hP⟩ | hfail
  · exact .inl ⟨c, hP, hc, hab c hc⟩
  · rcases yields_iff.mp hb with ⟨c, hc, -⟩ | hfail'
    · obtain ⟨e, he⟩ := hfail
      rw [hba c hc] at he
      cases he
    · exact .inr ⟨hfail, hfail'⟩

/-- An operator and its converse agree on exchanged operands. -/
theorem agree_converse (hx : x.Valid) (hy : y.Valid) (h : op.converse? = some op')
    (hkind : ∀ k, governingKind op x y = .ok k → Evaluate.Exchanges op k.concrete) :
    Agree (fun c => c.Valid ∧ c.kind = op.foldedKind x.kind y.kind)
      (binary (.binary op) x y) (binary (.binary op') y x) := by
  have hop := BinaryOp.isShift_of_converse? h
  have hop' := BinaryOp.isShift_of_converse? (BinaryOp.converse?_symm h)
  have hkind' : ∀ k, governingKind op' y x = .ok k → Evaluate.Exchanges op' k.concrete := by
    intro k hk
    have hgoverns := governingKind_comm hk hop'
    rw [governingKind_congr x y hop' hop] at hgoverns
    rw [Evaluate.Exchanges, BinaryOp.yieldsBool_of_converse? h]
    exact hkind k hgoverns
  exact agree_of_ok (yields_foldBinary hx hy) (yields_foldBinary hy hx)
    (fun c => foldBinary_converse hx hy h hkind)
    (fun c => foldBinary_converse hy hx (BinaryOp.converse?_symm h) hkind')

/-- A valid constant of that kind is one of the two truth values. -/
theorem isTruth_of_kind (h : c.Valid) (hkind : c.kind = .bool) : c.IsTruth := by
  have hvalue := h.kind_value (by rw [isBound, hkind]; rfl)
  have hreservation := h.reservation
  obtain ⟨value, kind, reservation⟩ := c
  obtain rfl : kind = .bool := hkind
  obtain rfl : reservation = none := hreservation
  cases value with
  | bool t => exact ⟨t, rfl⟩
  | _ => cases hvalue

/-! ## Comparisons -/

/-- Operands that cannot be aligned are refused whatever the operation is. -/
theorem fails_of_not_aligned (hx : x.Valid) (hy : y.Valid) (hop : op.isShift = false)
    (h : ¬ ∃ k vx vy, Aligned x y k vx vy) : Fails (binary (.binary op) x y) := by
  have hyields : Yields _ (binary (.binary op) x y) := yields_foldBinary hx hy
  rcases yields_iff.mp hyields with ⟨c, hc, -⟩ | hfail
  · obtain ⟨k, vx, vy, haligned, -⟩ := (foldBinary_eq_ok_iff hx hy hop).mp hc
    exact absurd ⟨k, vx, vy, haligned⟩ h
  · exact hfail

theorem binary_of_aligned {t : Bool} (hx : x.Valid) (hy : y.Valid) (haligned : Aligned x y k vx vy)
    (hop : op.isShift = false) (haccepts : op.accepts k.concrete = true)
    (hresult : op.yieldsBool = true) (h : Evaluate.binary op vx vy = some (.ok (.bool t))) :
    binary (.binary op) x y = .ok (.typed (.bool t)) := by
  obtain ⟨hvx, hvy⟩ := haligned.kinds haccepts
  refine (foldBinary_eq_ok_iff hx hy hop).mpr ⟨k, vx, vy, haligned, haccepts, ?_⟩
  refine compute_eq_ok_iff.mpr ⟨.bool t, ?_, ?_⟩
  · rw [Evaluate.apply_binary_of_kind hop hvx hvy, h]
    rfl
  · rw [folded, Operator.resultKind, BinaryOp.resultKind, if_pos hresult]
    rfl

/-- Integers and strings can be compared both ways round. -/
theorem exchanges_of_governed (h : Governed (fun k => k.isInteger || k == .string) x y)
    (hop : op.isShift = false) (hyields : op.yieldsBool = true)
    (hk : governingKind op x y = .ok k) : Evaluate.Exchanges op k.concrete := by
  have hkind := h op k hop hk
  simp only [Bool.or_eq_true, beq_iff_eq] at hkind
  exact hkind.imp_right fun hstring => ⟨hstring, hyields⟩

/-- Constants of an integer kind or strings are compared by an order: if they can be compared at
all, then exactly one is less, or they are equal. -/
theorem comparisons_of_governed (hx : x.Valid) (hy : y.Valid)
    (h : Governed (fun k => k.isInteger || k == .string) x y) :
    Fails (binary (.binary .lt) x y) ∧ Fails (binary (.binary .eq) x y) ∧
      Fails (binary (.binary .gt) x y) ∨
    ∃ s t u : Bool, binary (.binary .lt) x y = .ok (.typed (.bool s)) ∧
      binary (.binary .eq) x y = .ok (.typed (.bool t)) ∧
      binary (.binary .gt) x y = .ok (.typed (.bool u)) ∧ [s, t, u].count true = 1 := by
  by_cases haligned : ∃ k vx vy, Aligned x y k vx vy
  · obtain ⟨k, vx, vy, haligned⟩ := haligned
    have hexchanges := exchanges_of_governed h rfl rfl (haligned.governs .lt rfl)
    have haccepts : BinaryOp.lt.accepts k.concrete = true ∧ BinaryOp.eq.accepts k.concrete = true ∧
        BinaryOp.gt.accepts k.concrete = true := by
      rcases hexchanges with hinteger | ⟨hstring, -⟩
      · simp [BinaryOp.accepts, Kind.isNumber, Kind.isReal, hinteger]
      · simp [BinaryOp.accepts, hstring]
    obtain ⟨hlt, heq, hgt⟩ := haccepts
    obtain ⟨hvx, hvy⟩ := haligned.kinds hlt
    obtain ⟨s, t, u, hs, ht, hu, hone⟩ :=
      Evaluate.binary_trichotomy hvx hvy (exchanges_foldKind hexchanges _)
    exact .inr ⟨s, t, u, binary_of_aligned hx hy haligned rfl hlt rfl hs,
      binary_of_aligned hx hy haligned rfl heq rfl ht,
      binary_of_aligned hx hy haligned rfl hgt rfl hu, hone⟩
  · exact .inl ⟨fails_of_not_aligned hx hy rfl haligned, fails_of_not_aligned hx hy rfl haligned,
      fails_of_not_aligned hx hy rfl haligned⟩

/-- **The order of operands matters only where it should.** Let `x` and `y` be constants of any
literals.

* If an integer kind governs them, sums, products, bitwise combinations and tests for equality are
  the same in both orders: both fail, or both give the same constant.
* If an integer kind or that of strings governs them, `x < y` and `y > x` are the same, and so are
  `x ≤ y` and `y ≥ x`.
* Then also exactly one of `x < y`, `x = y` and `x > y` is true, unless all of them fail. -/
theorem binary_operand_order {l m : Literal} (hx : l.const = .ok x) (hy : m.const = .ok y) :
    (Governed Kind.isInteger x y → ∀ op ∈ [BinaryOp.add, .mul, .and, .or, .xor, .eq, .ne],
      Agree Valid (binary (.binary op) x y) (binary (.binary op) y x)) ∧
    (Governed (fun k => k.isInteger || k == .string) x y →
      Agree IsTruth (binary (.binary .lt) x y) (binary (.binary .gt) y x) ∧
      Agree IsTruth (binary (.binary .le) x y) (binary (.binary .ge) y x) ∧
      (Fails (binary (.binary .lt) x y) ∧ Fails (binary (.binary .eq) x y) ∧
          Fails (binary (.binary .gt) x y) ∨
        ∃ s t u : Bool, binary (.binary .lt) x y = .ok (.typed (.bool s)) ∧
          binary (.binary .eq) x y = .ok (.typed (.bool t)) ∧
          binary (.binary .gt) x y = .ok (.typed (.bool u)) ∧ [s, t, u].count true = 1)) := by
  have hvx := valid_of_const hx
  have hvy := valid_of_const hy
  constructor
  · intro hgoverned op hop
    have hconverse : op.converse? = some op := by
      simp only [List.mem_cons, List.not_mem_nil, or_false] at hop
      rcases hop with rfl | rfl | rfl | rfl | rfl | rfl | rfl <;> rfl
    refine (agree_converse hvx hvy hconverse ?_).imp fun c hc => hc.1
    intro k hk
    exact .inl (hgoverned op k (BinaryOp.isShift_of_converse? hconverse) hk)
  · intro hgoverned
    refine ⟨?_, ?_, comparisons_of_governed hvx hvy hgoverned⟩
    · refine (agree_converse hvx hvy rfl ?_).imp fun c hc => isTruth_of_kind hc.1 hc.2
      intro k hk
      exact exchanges_of_governed hgoverned rfl rfl hk
    · refine (agree_converse hvx hvy rfl ?_).imp fun c hc => isTruth_of_kind hc.1 hc.2
      intro k hk
      exact exchanges_of_governed hgoverned rfl rfl hk

/-- An 8-bit number and the untyped float `2.0`: the kind of the number governs them, whichever
comes first. -/
theorem binary_operand_order_mixed :
    ∃ hz : IntKind.int8.Fits (-93), ∃ hr : IntKind.int8.Fits (-91),
      let x := Const.typed (.integer .int8 (-93) hz)
      let y := Const.float ⟨0x4000000000000000⟩
      Governed Kind.isInteger x y ∧ Governed (fun k => k.isInteger || k == .string) x y ∧
      binary (.binary .add) x y = .ok (.typed (.integer .int8 (-91) hr)) ∧
      binary (.binary .add) y x = .ok (.typed (.integer .int8 (-91) hr)) ∧
      binary (.binary .lt) x y = .ok (.typed (.bool true)) ∧
      binary (.binary .gt) y x = .ok (.typed (.bool true)) ∧
      binary (.binary .eq) x y = .ok (.typed (.bool false)) ∧
      binary (.binary .gt) x y = .ok (.typed (.bool false)) := by
  refine ⟨by decide, by decide, ?_⟩
  intro x y
  have hkind : ∀ op k, op.isShift = false → governingKind op x y = .ok k →
      k = .integer .int8 := by
    intro op k hop hk
    unfold governingKind at hk
    rw [hop] at hk
    exact (Except.ok.inj hk).symm
  have hinteger : Governed Kind.isInteger x y := by
    intro op k hop hk
    rw [hkind op k hop hk]
    rfl
  have hordered : Governed (fun k => k.isInteger || k == .string) x y := by
    intro op k hop hk
    rw [hkind op k hop hk]
    rfl
  obtain ⟨hcommutes, hcompares⟩ := binary_operand_order
    (l := .typed (.integer .int8 (-93) (by decide))) (m := .float ⟨0x4000000000000000⟩)
    (x := x) (y := y) rfl rfl
  have hadd : binary (.binary .add) x y = .ok (.typed (.integer .int8 (-91) (by decide))) :=
    eq_ok_of_toOption (by decide +kernel)
  have hlt : binary (.binary .lt) x y = .ok (.typed (.bool true)) :=
    eq_ok_of_toOption (by decide +kernel)
  obtain ⟨hless, -, hone⟩ := hcompares hordered
  refine ⟨hinteger, hordered, hadd, ?_, hlt, ?_, ?_⟩
  · exact (hcommutes hinteger .add (by simp)).eq_ok hadd
  · exact hless.eq_ok hlt
  · rcases hone with ⟨⟨e, he⟩, -⟩ | ⟨s, t, u, hs, ht, hu, hcount⟩
    · rw [hlt] at he
      cases he
    · have hvalue : Value.bool true = .bool s :=
        congrArg value (Except.ok.inj (hlt.symm.trans hs))
      obtain rfl := Value.bool.inj hvalue
      cases t <;> cases u <;> simp at hcount
      exact ⟨ht, hu⟩

end Const

end Lowering
