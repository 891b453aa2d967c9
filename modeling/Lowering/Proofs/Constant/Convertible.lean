import Lowering.Proofs.Constant.OpenInteger
import Lowering.Proofs.Constant.Stored

/-!
# What open constants convert to

A front end may ask beforehand whether a constant can be bound to a type. `Const.convertible`
answers from the value alone, by cases of its own; binding looks at the kind of the constant, at its
default kind and at the type. Main statement: `convertible_iff_attempt`, by which the answer is
always right, and the default type is always accepted and leaves the number as it is.

Both sides rest on what an open constant can hold, `cases_of_open`: a number in its widest form.
Hence it is no string, and it is of its default kind already, except for an integer greater than
every `int`, which moves from `uint64` to `uint`.
-/

namespace Lowering

/-- Two values hold the same number, however it is looked at. Floats agree bit by bit. -/
structure Value.SameNumber (u v : Value) : Prop where
  toInt? : u.toInt? = v.toInt?
  toDouble? : u.toDouble? = v.toDouble?
  toComplex? : u.toComplex? = v.toComplex?

theorem Value.SameNumber.refl (v : Value) : v.SameNumber v := ⟨rfl, rfl, rfl⟩

/-- The kind of an integer is no part of the number. -/
theorem Value.SameNumber.integer {k l : IntKind} {z : Int} (hk : k.Fits z) (hl : l.Fits z) :
    SameNumber (.integer k z hk) (.integer l z hl) := ⟨rfl, rfl, rfl⟩

namespace Const

variable {c : Const} {t : Ty} {v : Value}

/-! ## Default kinds -/

theorem isBasic_kind (v : Value) : v.kind.isBasic = true := by
  cases v <;> rfl

theorem represent_self (v : Value) : v.represent v.kind = .ok v := by
  unfold Value.represent
  rw [if_pos (.inr rfl)]

/-- An open constant holds a number. It is of the default kind already, but for an integer greater
than every `int`. -/
theorem cases_of_open (hc : c.Stored) (hb : c.isBound = false) :
    c.value.kind.isNumber = true ∧ (c.defaultKind = c.value.kind ∨
      ∃ z hz, c.value = .integer .uint64 z hz ∧ c.defaultKind = .integer .uint) := by
  have hopen : c.kind.isUntyped = true := by simpa [isBound] using hb
  have hchecked : holds c.kind c.value = true := by
    rcases hc with hchecked | ⟨hkind, -⟩
    · exact hchecked
    · rw [hkind] at hopen
      cases hopen
  unfold defaultKind
  cases hk : c.kind with
  | untypedInt =>
    rw [hk] at hchecked
    cases hv : c.value with
    | integer i z hz =>
      rw [hv] at hchecked
      cases i with
      | int => exact ⟨rfl, .inl rfl⟩
      | uint64 => exact ⟨rfl, .inr ⟨z, hz, rfl, rfl⟩⟩
      | _ => cases hchecked
    | _ =>
      rw [hv] at hchecked
      cases hchecked
  | untypedFloat | untypedComplex =>
    rw [hk] at hchecked
    have hkind := beq_iff_eq.mp hchecked
    rw [hkind]
    exact ⟨rfl, .inl rfl⟩
  | _ =>
    rw [hk] at hopen
    cases hopen

theorem isBasic_defaultKind (hc : c.Stored) (hb : c.isBound = false) :
    c.defaultKind.isBasic = true := by
  rcases (cases_of_open hc hb).2 with hkind | ⟨z, hz, -, hkind⟩
  · rw [hkind]
    exact isBasic_kind c.value
  · rw [hkind]
    rfl

/-- An open constant is of its default kind, or can be brought to it with the same number. -/
theorem exists_represent_defaultKind (hc : c.Stored) (hb : c.isBound = false) :
    ∃ u, c.value.represent c.defaultKind = .ok u ∧ u.SameNumber c.value := by
  rcases (cases_of_open hc hb).2 with hkind | ⟨z, hz, hvalue, hkind⟩
  · rw [hkind]
    exact ⟨c.value, represent_self c.value, .refl c.value⟩
  · have hfits : IntKind.uint.Fits z := hz
    rw [hkind, hvalue]
    exact ⟨.integer .uint z hfits, Value.represent_of_fits rfl hfits, .integer hfits hz⟩

/-! ## Default types -/

theorem defaultType_eq_ok_iff (hbasic : c.defaultKind.isBasic = true) :
    c.defaultType = .ok t ↔ t = .basic c.defaultKind := by
  unfold defaultType typeOfKind
  rw [Ty.ofKind?, if_pos hbasic]
  exact ⟨fun h => (Except.ok.inj h).symm, fun h => h ▸ rfl⟩

theorem targetKind_of_interface (h : t.isEmptyInterface = true) : c.targetKind t = c.defaultKind :=
  if_pos h

theorem targetKind_of_other (h : t.isEmptyInterface = false) : c.targetKind t = t.kind := by
  simp [targetKind, h]

/-- An open constant takes a type if its value can be represented in the kind asked for. -/
theorem boundAs_toBool_of_open (hb : c.isBound = false) :
    (∃ bound, c.boundAs t = .ok bound) ↔ (c.value.represent (c.targetKind t)).toBool = true := by
  unfold boundAs
  rw [hb, if_neg Bool.false_ne_true]
  cases c.value.represent (c.targetKind t) with
  | ok u => simp [Except.toBool]
  | error e => simp [Except.toBool]

theorem represent_string (hk : v.kind ≠ .string) :
    v.represent .string = .error .incompatible := by
  unfold Value.represent
  rw [if_neg]
  rintro (h | h)
  · cases h
  · exact hk h.symm

theorem isSome_toComplex?_of_represent {p : Precision} {u : Value}
    (h : v.represent (.complex p) = .ok u) : v.toComplex?.isSome = true := by
  cases v with
  | bool b => cases h
  | string s => cases h
  | _ => rfl

/-- The test for convertibility agrees with binding. -/
theorem convertible_iff (hc : c.Stored) (hb : c.isBound = false) :
    convertible c.value t = true ↔ ∃ bound, c.boundAs t = .ok bound := by
  rw [boundAs_toBool_of_open hb]
  cases hi : t.isEmptyInterface with
  | true =>
    obtain ⟨u, hu, -⟩ := exists_represent_defaultKind hc hb
    rw [targetKind_of_interface hi, hu, convertible, if_pos hi]
    exact ⟨fun _ => rfl, fun _ => rfl⟩
  | false =>
    rw [targetKind_of_other hi, convertible, hi, if_neg Bool.false_ne_true]
    cases ht : t.kind with
    | string =>
      have hkind : c.value.kind ≠ .string := by
        intro hstring
        have hnumber := (cases_of_open hc hb).1
        rw [hstring] at hnumber
        cases hnumber
      dsimp only
      rw [represent_string hkind]
      simp [hkind, Except.toBool]
    | complex p =>
      dsimp only
      cases hr : c.value.represent (.complex p) with
      | ok u => simp [isSome_toComplex?_of_represent hr, Except.toBool]
      | error e => simp [Except.toBool]
    | _ => exact Iff.rfl

/-- An open constant accepts its default type and keeps its number. -/
theorem boundAs_defaultType (hc : c.Stored) (hb : c.isBound = false)
    (h : c.defaultType = .ok t) :
    ∃ u, c.boundAs t = .ok (u, c.defaultKind) ∧ u.SameNumber c.value := by
  obtain rfl := (defaultType_eq_ok_iff (isBasic_defaultKind hc hb)).mp h
  obtain ⟨u, hu, hnumber⟩ := exists_represent_defaultKind hc hb
  have htarget : c.targetKind (.basic c.defaultKind) = c.defaultKind := targetKind_of_other rfl
  exact ⟨u, (boundAs_eq_ok_of_open hb).mpr ⟨hu, htarget.symm⟩, hnumber⟩

/-! ## Attempts -/

section Attempt

variable {β : Type} [Backend β] {b : β}

/-- Without a place to fill, binding succeeds if the constant can be converted, and nothing but the
constant changes. -/
theorem attempt_of_boundAs {k : Kind} (hfree : c.reservation = none)
    (h : c.boundAs t = .ok (v, k)) :
    Binding.attempt t (c, b) = .ok (.ok (), { value := v, kind := k }, b) := by
  obtain ⟨value, kind, _⟩ := c
  cases hfree
  rw [Binding.attempt_of_ok h]
  exact Binding.settle_of_none rfl

theorem attempt_succeeds_iff (hfree : c.reservation = none) :
    (∃ c' b', Binding.attempt t (c, b) = .ok (.ok (), c', b')) ↔
      ∃ bound, c.boundAs t = .ok bound := by
  constructor
  · rintro ⟨c', b', h⟩
    rcases Binding.cases_of_attempt h with ⟨e, hfails, -⟩ | ⟨v, k, -, hbound, -⟩
    · cases hfails
    · exact ⟨(v, k), hbound⟩
  · rintro ⟨⟨v, k⟩, hbound⟩
    exact ⟨_, b, attempt_of_boundAs hfree hbound⟩

/-- Binding fails without a trace, and never with a fault. -/
theorem attempt_fails_iff (hfree : c.reservation = none) :
    (∃ e, Binding.attempt t (c, b) = .ok (.error e, c, b)) ↔
      ¬ ∃ bound, c.boundAs t = .ok bound := by
  cases hbound : c.boundAs t with
  | error e =>
    refine iff_of_true ⟨e, Binding.attempt_of_error hbound⟩ ?_
    rintro ⟨bound, hok⟩
    cases hok
  | ok bound =>
    refine iff_of_false ?_ (not_not_intro ⟨bound, rfl⟩)
    rintro ⟨e, hfails⟩
    rw [attempt_of_boundAs hfree hbound] at hfails
    cases hfails

end Attempt

/-- **The test for convertibility agrees with binding.** For every open constant that waits for no
place and every type, in every backend: binding succeeds exactly if the test says so, and otherwise
it reports an error and changes neither the constant nor the backend. The default type of the
constant is always accepted, and then the constant is of its default kind and holds the same
number. -/
theorem convertible_iff_attempt (hc : c.Reachable) (hopen : c.isBound = false)
    (hfree : c.reservation = none) :
    (∀ (t : Ty) (β : Type) [Backend β] (b : β),
      (convertible c.value t = true ↔
        ∃ c' b', Binding.attempt t (c, b) = .ok (.ok (), c', b')) ∧
      (convertible c.value t = false ↔
        ∃ e, Binding.attempt t (c, b) = .ok (.error e, c, b))) ∧
    ∃ t, c.defaultType = .ok t ∧ ∀ (β : Type) [Backend β] (b : β),
      ∃ v, Binding.attempt t (c, b) = .ok (.ok (), { value := v, kind := c.defaultKind }, b) ∧
        v.kind = c.defaultKind ∧ v.SameNumber c.value := by
  have hstored := stored_of_reachable hc
  refine ⟨fun t β _ b => ?_, .basic c.defaultKind, ?_, fun β _ b => ?_⟩
  · rw [attempt_succeeds_iff hfree, attempt_fails_iff hfree, ← convertible_iff hstored hopen,
      Bool.not_eq_true]
    exact ⟨Iff.rfl, Iff.rfl⟩
  · exact (defaultType_eq_ok_iff (isBasic_defaultKind hstored hopen)).mpr rfl
  · have hdefault := (defaultType_eq_ok_iff (isBasic_defaultKind hstored hopen)).mpr rfl
    obtain ⟨v, hbound, hnumber⟩ := boundAs_defaultType hstored hopen hdefault
    refine ⟨v, attempt_of_boundAs hfree hbound, ?_, hnumber⟩
    have hne : c.defaultKind ≠ .interface := defaultKind_ne (by simpa [isBound] using hopen)
    exact kind_of_represent ((boundAs_eq_ok_of_open hopen).mp hbound).1 hne

/-- The sum of 9223372036854775808 and 4, an integer greater than every `int`. -/
def wideSum : Const :=
  { value := .integer .uint64 9223372036854775812 (by decide), kind := .untypedInt }

theorem reachable_wideSum : Reachable wideSum :=
  @Reachable.binary (.binary .add) _ _ _ (.literal (l := .uint 9223372036854775808) rfl)
    (.literal (l := .int 4) rfl) (eq_ok_of_toOption (by decide +kernel))

theorem convertible_wideSum :
    Reachable wideSum ∧ wideSum.isBound = false ∧ wideSum.reservation = none ∧
      (∃ c' b', Binding.attempt (β := Bytecode.Builder) (.basic (.float .single))
        (wideSum, { id := 1 }) = .ok (.ok (), c', b')) ∧
      (∃ e, Binding.attempt (β := Bytecode.Builder) (.integer .int64) (wideSum, { id := 1 }) =
        .ok (.error e, wideSum, { id := 1 })) ∧
      ∃ v, Binding.attempt (β := Bytecode.Builder) (.integer .uint) (wideSum, { id := 1 }) =
        .ok (.ok (), { value := v, kind := .integer .uint }, { id := 1 }) ∧
        v.SameNumber wideSum.value := by
  obtain ⟨hagrees, t, ht, hdefault⟩ := convertible_iff_attempt reachable_wideSum rfl rfl
  obtain rfl : .integer .uint = t := Except.ok.inj ht
  obtain ⟨v, hv, -, hnumber⟩ := hdefault Bytecode.Builder { id := 1 }
  exact ⟨reachable_wideSum, rfl, rfl, (hagrees _ _ _).1.mp (by decide +kernel),
    (hagrees _ _ _).2.mp (by decide +kernel), v, hv, hnumber⟩

end Const

end Lowering
