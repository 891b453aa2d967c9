import Lowering.Proofs.Integer.Exact

/-!
# What operators yield

A computation that may fail in two ways, by an error that its callers expect or by a fault, is
described by `Yields P`: it does not end in a fault, and a result has the property `P`. The rule for
sequences is `Yields.bind`.

An operator that accepts a kind has a meaning for all operands of that kind, and the kind of the
result is known beforehand (`yields_apply_unary`, `yields_apply_binary`).
-/

namespace Lowering

/-- The computation has a result with the property `P`, or ends in an error that is not a fault. -/
def Yields {ε α : Type} (P : α → Prop) : Except (Failure ε) α → Prop
  | .ok a => P a
  | .error (.error _) => True
  | .error (.fault _) => False

section Yields

variable {ε α β : Type} {P Q : α → Prop} {R : β → Prop} {first : Except (Failure ε) α}
  {next : α → Except (Failure ε) β}

/-- Not to panic is to give a result or an error. -/
theorem yields_iff :
    Yields P first ↔ (∃ a, first = .ok a ∧ P a) ∨ ∃ e, first = .error (.error e) := by
  rcases first with (e | f) | a
  · exact ⟨fun _ => .inr ⟨e, rfl⟩, fun _ => trivial⟩
  · exact ⟨False.elim, by rintro (⟨_, ⟨⟩, _⟩ | ⟨_, ⟨⟩⟩)⟩
  · exact ⟨fun h => .inl ⟨a, rfl, h⟩, by rintro (⟨_, ⟨⟩, h⟩ | ⟨_, ⟨⟩⟩); exact h⟩

theorem Yields.imp (h : Yields P first) (hPQ : ∀ a, P a → Q a) : Yields Q first := by
  rcases first with (e | f) | a
  · trivial
  · exact h
  · exact hPQ a h

/-- One computation after another. -/
theorem Yields.bind (h : Yields P first) (hnext : ∀ a, P a → Yields R (next a)) :
    Yields R (first >>= next) := by
  rcases first with (e | f) | a
  · trivial
  · exact h
  · exact hnext a h

/-- A computation that first refuses what meets a condition. -/
theorem yields_refusal {p : Prop} [Decidable p] {e : ε} {rest : Except (Failure ε) β}
    (h : ¬ p → Yields R rest) : Yields R (if p then throw (.error e) >>= next else rest) := by
  by_cases hp : p
  · rw [if_pos hp]
    trivial
  · rw [if_neg hp]
    exact h hp

end Yields

namespace Evaluate

variable {k : IntKind} {p : Precision} {kind : Kind} {x y : Value}

/-! ## Operations that have a meaning -/

/-- The operation has a meaning, and a result is of kind `kind`. -/
def Gives (kind : Kind) (outcome : Option (Except EvalError Value)) : Prop :=
  ∃ r, outcome = some r ∧ ∀ v, r = .ok v → v.kind = kind

theorem gives_ok {v : Value} (h : v.kind = kind) : Gives kind (some (.ok v)) := by
  refine ⟨.ok v, rfl, ?_⟩
  rintro _ ⟨⟩
  exact h

/-- A result that is out of range is an error and not a panic. -/
theorem gives_checked (z : Int) : Gives (.integer k) (some (checked k z)) := by
  refine ⟨_, rfl, fun v hv => ?_⟩
  unfold checked Value.integer? at hv
  split at hv
  · obtain rfl := Except.ok.inj hv
    rfl
  · cases hv

theorem gives_checkedFloat (d : Double) : Gives (.float p) (some (checkedFloat p d)) := by
  refine ⟨_, rfl, fun v hv => ?_⟩
  unfold checkedFloat at hv
  dsimp only at hv
  split at hv
  · cases hv
  · obtain rfl := Except.ok.inj hv
    rfl

theorem gives_checkedComplex (c : Complex) : Gives (.complex p) (some (checkedComplex p c)) := by
  refine ⟨_, rfl, fun v hv => ?_⟩
  unfold checkedComplex at hv
  dsimp only at hv
  split at hv
  · cases hv
  · obtain rfl := Except.ok.inj hv
    rfl

theorem gives_error (e : EvalError) : Gives kind (some (.error e)) :=
  ⟨.error e, rfl, fun _ h => nomatch h⟩

/-- An operation that refuses some operands. -/
theorem gives_ite {c : Prop} [Decidable c] {e : EvalError} {r : Except EvalError Value}
    (h : Gives kind (some r)) : Gives kind (some (if c then .error e else r)) := by
  split
  · exact gives_error e
  · exact h

/-! ## Operators by the kind of their operands -/

section Unary

variable {op : UnaryOp}

theorem gives_boolUnary {a : Bool} (h : op.accepts .bool = true) :
    Gives (op.resultKind .bool) (boolUnary a op) := by
  cases op with
  | not => exact gives_ok rfl
  | neg | bitNot => cases h

theorem gives_integerUnary {z : Int} (hz : k.Fits z) (h : op.accepts (.integer k) = true) :
    Gives (op.resultKind (.integer k)) (integerUnary k z op) := by
  cases op with
  | neg =>
    rw [integerUnary_eq_checked hz (by simp) rfl]
    exact gives_checked _
  | bitNot =>
    rw [integerUnary_bitNot hz]
    exact gives_checked _
  | not => cases h

theorem gives_floatUnary {d : Double} (h : op.accepts (.float p) = true) :
    Gives (op.resultKind (.float p)) (floatUnary p d op) := by
  cases op with
  | neg => exact gives_checkedFloat _
  | not | bitNot => cases h

theorem gives_complexUnary {c : Complex} (h : op.accepts (.complex p) = true) :
    Gives (op.resultKind (.complex p)) (complexUnary p c op) := by
  cases op with
  | neg => exact gives_checkedComplex _
  | not | bitNot => cases h

/-- By the kind of the operand, as there is an evaluation for each. -/
theorem gives_unary (h : op.accepts x.kind = true) :
    Gives (op.resultKind x.kind) (unary op x) := by
  cases x with
  | bool a => exact gives_boolUnary h
  | integer k z hz => exact gives_integerUnary hz h
  | float p d => exact gives_floatUnary h
  | complex p re im => exact gives_complexUnary h
  | string s => cases op <;> cases h

end Unary

section Binary

variable {op : BinaryOp}

theorem gives_boolBinary {a b : Bool} (h : op.accepts .bool = true) :
    Gives (op.resultKind .bool) (boolBinary a b op) := by
  cases op with
  | lAnd | lOr | eq | ne => exact gives_ok rfl
  | _ => cases h

/-- By the operation. Division by zero and negative counts are errors. -/
theorem gives_integerBinary {l : IntKind} {z w : Int} (hz : k.Fits z) (hw : l.Fits w)
    (hmeets : k = l ∨ op.isShift = true) (h : op.accepts (.integer k) = true) :
    Gives (op.resultKind (.integer k)) (integerBinary k z w op) := by
  cases op with
  | add | sub | mul | and | or | xor | andNot =>
    rw [integerBinary_eq_checked hz hw hmeets rfl]
    exact gives_checked _
  | quo | mod | lsh | rsh =>
    -- These four have an exact result, or a reason why there is none.
    cases hexact : BinaryOp.exact _ z w with
    | some v =>
      rw [integerBinary_eq_checked hz hw hmeets hexact]
      exact gives_checked _
    | none =>
      rw [integerBinary_of_exact_eq_none hw rfl hexact]
      exact gives_error _
  | lt | le | gt | ge | eq | ne =>
    rw [integerBinary_eq_compare hz hw rfl]
    exact gives_ok rfl
  | lAnd | lOr => cases h

theorem gives_floatBinary {d e : Double} (h : op.accepts (.float p) = true) :
    Gives (op.resultKind (.float p)) (floatBinary p d e op) := by
  cases op with
  | add | sub | mul => exact gives_checkedFloat _
  | quo => exact gives_ite (gives_checkedFloat _)
  | lt | le | gt | ge | eq | ne => exact gives_ok rfl
  | _ => cases h

theorem gives_complexBinary {c d : Complex} (h : op.accepts (.complex p) = true) :
    Gives (op.resultKind (.complex p)) (complexBinary p c d op) := by
  cases op with
  | add | sub | mul => exact gives_checkedComplex _
  | quo => exact gives_ite (gives_checkedComplex _)
  | eq | ne => exact gives_ok rfl
  | _ => cases h

theorem gives_stringBinary {s t : String} (h : op.accepts .string = true) :
    Gives (op.resultKind .string) (stringBinary s t op) := by
  cases op with
  | add | lt | le | gt | ge | eq | ne => exact gives_ok rfl
  | _ => cases h

/-- Only integers are shifted. -/
theorem isShift_eq_false (h : op.accepts kind = true) (hkind : kind.isInteger = false) :
    op.isShift = false := by
  cases op with
  | lsh | rsh =>
    have hinteger : kind.isInteger = true := h
    rw [hinteger] at hkind
    cases hkind
  | _ => rfl

/-- The operands are of one kind, but for the count of a shift, which may be any integer. -/
theorem gives_binary (h : op.accepts x.kind = true)
    (hshift : op.isShift = true → y.kind.isInteger = true)
    (hsame : op.isShift = false → y.kind = x.kind) :
    Gives (op.resultKind x.kind) (binary op x y) := by
  cases x with
  | integer k z hz =>
    -- The one kind of operands that may differ.
    cases y with
    | integer l w hw =>
      have hmeets : k = l ∨ op.isShift = true := by
        cases hs : op.isShift with
        | true => exact .inr rfl
        | false => exact .inl (Kind.integer.inj (hsame hs)).symm
      rw [binary, if_pos hmeets]
      exact gives_integerBinary hz hw hmeets h
    | _ =>
      cases hs : op.isShift with
      | true => cases hshift hs
      | false => cases hsame hs
  | bool a =>
    have hkind := hsame (isShift_eq_false h rfl)
    cases y with
    | bool b => exact gives_boolBinary h
    | _ => cases hkind
  | float p d =>
    have hkind := hsame (isShift_eq_false h rfl)
    cases y with
    | float q e =>
      obtain rfl := Kind.float.inj hkind
      rw [binary, if_pos rfl]
      exact gives_floatBinary h
    | _ => cases hkind
  | complex p re im =>
    have hkind := hsame (isShift_eq_false h rfl)
    cases y with
    | complex q re' im' =>
      obtain rfl := Kind.complex.inj hkind
      rw [binary, if_pos rfl]
      exact gives_complexBinary h
    | _ => cases hkind
  | string s =>
    have hkind := hsame (isShift_eq_false h rfl)
    cases y with
    | string t => exact gives_stringBinary h
    | _ => cases hkind

end Binary

/-! ## The checked entry -/

/-- What an evaluation gives is passed on. -/
theorem yields_settle {op : Operator} {kind' : Kind} {outcome : Option (Except EvalError Value)}
    (h : Gives kind outcome) : Yields (fun v => v.kind = kind) (settle op kind' outcome) := by
  obtain ⟨r, rfl, hr⟩ := h
  cases r with
  | ok v => exact hr v rfl
  | error e => trivial

/-- An operator that accepts a kind is evaluated for it. -/
theorem yields_apply_unary {op : UnaryOp} (hx : x.kind = kind) (h : op.accepts kind = true) :
    Yields (fun v => v.kind = op.resultKind kind) (apply kind (.unary op) [x]) := by
  subst hx
  rw [apply, if_neg (not_not_intro rfl)]
  exact yields_settle (gives_unary h)

/-- The operands are of the same kind, or the second one is the count of a shift. -/
theorem yields_apply_binary {op : BinaryOp} (hx : x.kind = kind) (h : op.accepts kind = true)
    (hshift : op.isShift = true → y.kind.isInteger = true)
    (hsame : op.isShift = false → y.kind = kind) :
    Yields (fun v => v.kind = op.resultKind kind) (apply kind (.binary op) [x, y]) := by
  subst hx
  have hy : ¬ (if op.isShift then !y.kind.isInteger else y.kind ≠ x.kind : Bool) = true := by
    cases hs : op.isShift with
    | true => simp [hshift hs]
    | false => simp [hsame hs]
  rw [apply, if_neg (not_not_intro rfl), if_neg hy]
  exact yields_settle (gives_binary h hshift hsame)

end Evaluate

end Lowering
