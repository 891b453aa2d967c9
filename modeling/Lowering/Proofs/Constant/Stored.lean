import Lowering.Proofs.Constant.Binding

/-!
# What constants hold

`Const.make` refuses a constant whose value is not of its kind, or not in the widest form of its
open kind. Folding makes every constant through that check; binding sets value and kind without it.

`Reachable` are the constants that literals, operators, reservations and attempts to bind can lead
to. The check holds of them with one exception: an open constant that is bound to an interface with
a name takes the kind `interface` and keeps its value. Main statement: `holds_iff_of_reachable`.
-/

namespace Lowering.Const

/-- The constants that come up in a compilation. -/
inductive Reachable : Const → Prop
  | literal {l : Literal} {c : Const} (h : l.const = .ok c) : Reachable c
  | unary {op : Operator} {x c : Const} (hx : Reachable x) (h : Const.unary op x = .ok c) :
    Reachable c
  | binary {op : Operator} {x y c : Const} (hx : Reachable x) (hy : Reachable y)
    (h : Const.binary op x y = .ok c) : Reachable c
  | reserved {β : Type} [Backend β] {b b' : β} {c c' : Const} (hc : Reachable c)
    (h : c.reserve b = .ok (c', b')) : Reachable c'
  | attempted {β : Type} [Backend β] {b b' : β} {t : Ty} {outcome : Except CompileError Unit}
    {c c' : Const} (hc : Reachable c) (h : Binding.attempt t (c, b) = .ok (outcome, c', b')) :
    Reachable c'

/-- The constant passes the check of `make`. -/
def Checked (c : Const) : Prop := holds c.kind c.value = true

/-- The value is in the widest form of an open kind. -/
def HasOpenForm (v : Value) : Prop := ∃ k : Kind, k.isUntyped = true ∧ holds k v = true

variable {c : Const} {t : Ty} {v : Value} {k : Kind}

/-! ## Literals and folding -/

theorem ensures_make (v : Value) (k : Kind) : Ensures Checked (make v k) := by
  intro c h
  unfold make at h
  split at h
  · next hholds =>
    cases h
    exact hholds
  · cases h

theorem ensures_literal (l : Literal) : Ensures Checked l.const := by
  cases l with
  | int n => exact ensures_ok rfl
  | uint n => exact ensures_ok (valid_uint n).1.holds
  | float x => exact ensures_ok rfl
  | complex re im => exact ensures_ok rfl
  | typed v => exact ensures_ok (valid_typed v).holds
  | stored v k => exact ensures_make v k

/-- A result is checked against its kind before it is a constant. -/
theorem ensures_compute (op : Operator) (k real : Kind) (args : List Value) :
    Ensures Checked (compute op k real args) := by
  unfold compute folded
  split
  · split
    · next hmake => exact ensures_ok (ensures_make _ _ _ hmake)
    · exact ensures_error
  · exact ensures_error
  · exact ensures_error

theorem ensures_unary (op : Operator) (x : Const) : Ensures Checked (Const.unary op x) := by
  cases op with
  | binary op => exact ensures_error
  | unary op =>
    refine ensures_bind fun _ => ensures_refusal (ensures_bind fun vx => ?_)
    exact ensures_compute _ _ _ _

theorem ensures_binary (op : Operator) (x y : Const) : Ensures Checked (Const.binary op x y) := by
  cases op with
  | unary op => exact ensures_error
  | binary op =>
    refine ensures_bind fun _ => ensures_bind fun _ => ensures_bind fun k => ensures_refusal ?_
    refine ensures_ite ?_ ?_
    · exact ensures_bind fun vy => ensures_bind fun vx => ensures_compute _ _ _ _
    · exact ensures_bind fun vy => ensures_bind fun vx => ensures_compute _ _ _ _

/-! ## Binding -/

/-- No constant is made as an interface. It can only be bound to one. -/
theorem Checked.kind_ne (h : c.Checked) : c.kind ≠ .interface := by
  intro hkind
  unfold Checked at h
  rw [hkind] at h
  cases hv : c.value <;> rw [hv] at h <;> cases h

/-- An interface takes any value as it is. -/
theorem represent_interface (v : Value) : v.represent .interface = .ok v := by
  unfold Value.represent
  rw [if_pos (.inl rfl)]

theorem defaultKind_ne (h : c.kind.isUntyped = true) : c.defaultKind ≠ .interface := by
  unfold defaultKind
  cases hkind : c.kind with
  | untypedInt =>
    dsimp only
    split
    · nofun
    · nofun
  | untypedFloat | untypedComplex => nofun
  | _ =>
    rw [hkind] at h
    cases h

/-- A bound constant keeps its kind. An open one takes the kind `interface` from an interface with a
name, and from no other type. -/
theorem kind_eq_interface_iff (h : c.boundAs t = .ok (v, k)) :
    k = .interface ↔ c.kind = .interface ∨
      c.isBound = false ∧ t.kind = .interface ∧ t.isEmptyInterface = false := by
  cases hb : c.isBound with
  | true =>
    rw [(eq_of_boundAs hb h).2]
    simp
  | false =>
    have hopen : c.kind.isUntyped = true := by simpa [isBound] using hb
    have hne : c.kind ≠ .interface := by
      intro hkind
      rw [hkind] at hopen
      cases hopen
    rw [((boundAs_eq_ok_of_open hb).mp h).2, targetKind]
    cases t.isEmptyInterface with
    | true => simp [defaultKind_ne hopen, hne]
    | false => simp [hne]

/-- The constant passes the check, or is of kind `interface` with the value of an open one. -/
def Stored (c : Const) : Prop := c.Checked ∨ c.kind = .interface ∧ HasOpenForm c.value

/-- Binding keeps the value in a form that its kind has. -/
theorem Stored.boundAs (hc : c.Stored) (h : c.boundAs t = .ok (v, k)) :
    Stored { value := v, kind := k } := by
  cases hb : c.isBound with
  | true =>
    obtain ⟨rfl, rfl⟩ := eq_of_boundAs hb h
    exact hc
  | false =>
    have hopen : c.kind.isUntyped = true := by simpa [isBound] using hb
    obtain ⟨hr, -⟩ := (boundAs_eq_ok_of_open hb).mp h
    by_cases hk : k = .interface
    · -- The value stays as it is, and the constant was open.
      subst hk
      obtain rfl : c.value = v := Except.ok.inj ((represent_interface c.value).symm.trans hr)
      rcases hc with hchecked | ⟨hkind, -⟩
      · exact .inr ⟨rfl, c.kind, hopen, hchecked⟩
      · rw [hkind] at hopen
        cases hopen
    · have hkind := kind_of_represent hr hk
      subst hkind
      exact .inl (valid_typed v).holds

/-! ## Every constant -/

/-- By induction on how the constant was made. -/
theorem stored_of_reachable (h : Reachable c) : c.Stored := by
  induction h with
  | literal h => exact .inl (ensures_literal _ _ h)
  | unary _ h => exact .inl (ensures_unary _ _ _ h)
  | binary _ _ h => exact .inl (ensures_binary _ _ _ _ h)
  | reserved _ h ih =>
    obtain ⟨-, -, rfl⟩ := reserve_eq_ok.mp h
    exact ih
  | attempted _ h ih =>
    rcases Binding.cases_of_attempt h with ⟨e, -, -, rfl, -⟩ | ⟨v, k, -, hbound, rfl⟩
    · exact ih
    · exact ih.boundAs hbound

/-- **A constant holds a value of its kind unless its kind is `interface`.** Then it holds the value
of an open constant, and it has been bound to an interface with a name. -/
theorem holds_iff_of_reachable (h : Reachable c) :
    (holds c.kind c.value = true ↔ c.kind ≠ .interface) ∧
      (c.kind = .interface → HasOpenForm c.value) ∧
      ∀ (β : Type) [Backend β] (b b' : β) (t : Ty) (c' : Const),
        Binding.attempt t (c, b) = .ok (.ok (), c', b') →
        (c'.kind = .interface ↔ c.kind = .interface ∨
          c.isBound = false ∧ t.kind = .interface ∧ t.isEmptyInterface = false) := by
  have hstored := stored_of_reachable h
  refine ⟨⟨Checked.kind_ne, ?_⟩, ?_, ?_⟩
  · intro hne
    exact hstored.resolve_right fun hinterface => hne hinterface.1
  · intro hkind
    exact (hstored.resolve_left fun hchecked => hchecked.kind_ne hkind).2
  · intro β _ b b' t c' hattempt
    rcases Binding.cases_of_attempt hattempt with ⟨e, hfails, -⟩ | ⟨v, k, -, hbound, rfl⟩
    · cases hfails
    · exact kind_eq_interface_iff hbound

/-- An interface with a name. -/
def anyInterface : Ty := .defined "main" "Any" .interface

theorem reachable_any : Reachable { int 5 with kind := .interface } :=
  .attempted (t := anyInterface) (b := ({ id := 1 } : Bytecode.Builder))
    (.literal (l := .int 5) rfl) rfl

/-- The value of a constant that is bound to a named interface is not of the constant's kind. -/
theorem not_holds_bound_to_any :
    ∃ c, Binding.attempt anyInterface (int 5, ({ id := 1 } : Bytecode.Builder)) =
        .ok (.ok (), c, { id := 1 }) ∧ Reachable c ∧ holds c.kind c.value = false :=
  ⟨_, rfl, reachable_any, rfl⟩

theorem holds_iff_bound_to_any :
    Reachable { int 5 with kind := .interface } ∧ HasOpenForm (int 5).value ∧
      ¬ holds .interface (int 5).value = true :=
  have ⟨hiff, hform, _⟩ := holds_iff_of_reachable reachable_any
  ⟨reachable_any, hform rfl, fun hholds => hiff.mp hholds rfl⟩

end Lowering.Const
