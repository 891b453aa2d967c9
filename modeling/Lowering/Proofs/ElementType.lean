import Lowering.ElementType
import Lowering.Proofs.Constant.Convertible

/-!
# Element types are usable

The elements of a literal agree on a type if each of them is a single value that can be used at that
type: a constant can be bound to it, any other element has it. `Agrees` says so without the
algorithm, and `unify_sound` says that the algorithm finds the type exactly when there is one.

The algorithm decides by three tests: equality of fixed types, convertibility of constants, and
equality of default kinds. Each is tied to binding by a lemma of its own: `boundAs_of_ty?`, and for
open constants `convertible_iff` and `boundAs_defaultType`. What the loop has seen so far is
`Demand.Of`, which speaks about the elements as a set, so that neither their order nor the stride
matters afterwards.
-/

namespace Lowering

namespace Const

variable {c : Const} {t : Ty}

/-! ## Types of bound constants -/

/-- The kind of a bound constant names a type. -/
theorem exists_ty? (hc : c.Stored) (hb : c.isBound = true) :
    ∃ t, c.ty? = some t ∧ (t.isEmptyInterface = true ∨ t.kind = c.kind) := by
  unfold ty?
  rw [if_pos hb]
  rcases hc with hchecked | ⟨hkind, -⟩
  · have hvalue : c.value.kind = c.kind := (valid_of_holds hchecked).kind_value hb
    have hbasic : c.kind.isBasic = true := hvalue ▸ isBasic_kind c.value
    exact ⟨.basic c.kind, by simp [Ty.ofKind?, hbasic], .inr rfl⟩
  · exact ⟨.interface, by rw [hkind]; rfl, .inl rfl⟩

theorem ty?_of_open (hb : c.isBound = false) : c.ty? = none := by
  simp [ty?, hb]

theorem isBound_of_ty? (h : c.ty? = some t) : c.isBound = true := by
  cases hb : c.isBound with
  | true => rfl
  | false =>
    rw [ty?_of_open hb] at h
    cases h

/-- A bound constant accepts its own type. -/
theorem boundAs_of_ty? (hc : c.Stored) (h : c.ty? = some t) :
    c.boundAs t = .ok (c.value, c.kind) := by
  have hb : c.isBound = true := isBound_of_ty? h
  obtain ⟨u, hu, hkind⟩ := exists_ty? hc hb
  obtain rfl : u = t := Option.some.inj (hu.symm.trans h)
  rw [boundAs_of_isBound hb, verdict, if_pos hkind]
  rfl

end Const

namespace ElementType

/-! ## Selected elements -/

section Selection

variable {α : Type} {xs : List α} {base max step : Nat} {x : α}

/-- The places that are selected are evenly spaced. -/
theorem getElem?_everyFrom (gap skip : Nat) (xs : List α) (i : Nat) :
    (everyFrom gap skip xs)[i]? = xs[skip + i * (gap + 1)]? := by
  induction xs generalizing skip i with
  | nil => simp [everyFrom]
  | cons x xs ih =>
    cases skip with
    | zero =>
      cases i with
      | zero => simp [everyFrom]
      | succ i =>
        have hplace : 0 + (i + 1) * (gap + 1) = gap + i * (gap + 1) + 1 := by
          rw [Nat.succ_mul]
          omega
        rw [everyFrom, List.getElem?_cons_succ, ih, hplace, List.getElem?_cons_succ]
    | succ skip =>
      have hplace : skip + 1 + i * (gap + 1) = skip + i * (gap + 1) + 1 := by omega
      rw [everyFrom, ih, hplace, List.getElem?_cons_succ]

/-- The element stands at `base`, `base + step` and so on, below `max`. -/
def Selected (xs : List α) (base max step : Nat) (x : α) : Prop :=
  ∃ i, base + i * step < max ∧ xs[base + i * step]? = some x

/-- An element is selected by its place. -/
theorem mem_select_iff (hstep : 1 ≤ step) :
    x ∈ select base max step xs ↔ Selected xs base max step x := by
  unfold select Selected
  rw [List.mem_iff_getElem?]
  refine exists_congr fun i => ?_
  rw [getElem?_everyFrom, Nat.sub_add_cancel hstep, List.getElem?_drop, Nat.zero_add,
    List.getElem?_take]
  split
  · next h => exact ⟨fun hx => ⟨h, hx⟩, fun hx => hx.2⟩
  · next h => exact ⟨nofun, fun hx => absurd hx.1 h⟩

theorem Selected.mem (h : Selected xs base max step x) : x ∈ xs := by
  obtain ⟨i, -, hx⟩ := h
  exact List.mem_of_getElem? hx

end Selection

end ElementType

/-! ## Operands -/

namespace Operand

variable {o : Operand} {t : Ty}

/-- The operands that come up in a compilation. -/
inductive Reachable : Operand → Prop
  | value (t : Ty) : Reachable (.value t)
  | nonValue (n : NonValue) : Reachable (.nonValue n)
  | call (tfn : Ty) : Reachable (ofCall tfn)
  | const {c : Const} (h : c.Reachable) : Reachable (.const c)
  | func (f : Func) : Reachable (.func f)
  | native (f : NativeFunc) : Reachable (.native f)

theorem Reachable.of_const {c : Const} (h : (Operand.const c).Reachable) : c.Reachable := by
  generalize ho : Operand.const c = o at h
  cases h with
  | const h => exact Operand.const.inj ho ▸ h
  | call tfn =>
    unfold ofCall at ho
    split at ho <;> cases ho
  | _ => cases ho

/-- A single value without a type is an open constant. -/
theorem Reachable.exists_open (ho : o.Reachable) (hone : o.arity = 1) (h : o.ty? = none) :
    ∃ c, o = .const c ∧ c.isBound = false := by
  cases ho with
  | value t | func f | native f => cases h
  | nonValue n => cases hone
  | call tfn =>
    exfalso
    unfold ofCall at hone h
    cases hresults : tfn.results with
    | nil => simp [hresults, arity] at hone
    | cons u rest =>
      cases rest with
      | nil => simp [hresults, ty?] at h
      | cons u' rest => simp [hresults, arity] at hone
  | @const c hc =>
    refine ⟨c, rfl, ?_⟩
    cases hb : c.isBound with
    | false => rfl
    | true =>
      obtain ⟨u, hu, -⟩ := Const.exists_ty? (Const.stored_of_reachable hc) hb
      have hnone : c.ty? = none := h
      rw [hnone] at hu
      cases hu

/-- A constant can be bound to `t`, in every backend and without a change to it. Any other operand
is of type `t`. -/
def UsableAt (t : Ty) : Operand → Prop
  | const c => ∀ (β : Type) [Backend β] (b : β),
    ∃ c', Binding.attempt t (c, b) = .ok (.ok (), c', b)
  | o => o.ty? = some t

/-- A known constant can be used at a type if it can be bound to it. -/
theorem usableAt_const_iff {c : Const} (hfree : c.reservation = none) :
    (const c).UsableAt t ↔ ∃ bound, c.boundAs t = .ok bound := by
  constructor
  · intro h
    obtain ⟨c', hattempt⟩ := h Bytecode.Builder { id := 0 }
    exact (Const.attempt_succeeds_iff hfree).mp ⟨c', _, hattempt⟩
  · rintro ⟨bound, hbound⟩ β _ b
    exact ⟨_, Const.attempt_of_boundAs hfree hbound⟩

end Operand

namespace ElementType

/-! ## One element after another -/

variable {d d' : Demand} {o : Operand} {t : Ty} {xs elements : List Operand}

/-- A call with no value or several values is no element. -/
theorem exists_add_error (h : o.arity ≠ 1) : ∃ e, d.add o = .error (.error e) := by
  unfold Demand.add
  split
  · exact ⟨_, rfl⟩
  · next hone => exact absurd hone h
  · exact ⟨_, rfl⟩

/-- Open constants wait until a type is known. -/
theorem add_of_open {c : Const} (hb : c.isBound = false) :
    d.add (.const c) = .ok { d with pending := d.pending ++ [c] } := by
  simp [Demand.add, Operand.arity, hb]

/-- The first type is fixed, and every other one must be the same. -/
theorem add_of_ty? (hone : o.arity = 1) (ht : o.ty? = some t) :
    d.add o = if ∀ u ∈ d.fixed, u = t then .ok { d with fixed := some t }
      else .error (.error .mismatchedElements) := by
  have hfix : d.add o = Demand.add.fix d o := by
    unfold Demand.add
    rw [hone]
    cases o with
    | const c => exact if_pos (Const.isBound_of_ty? ht)
    | _ => rfl
  rw [hfix, Demand.add.fix, Operand.ty, ht]
  obtain ⟨_ | u, pending⟩ := d
  · simp
  · by_cases hu : u = t <;> simp [hu]

/-- What has been asked for after the elements `xs`: the types of all that have one, and the open
constants. -/
structure Demand.Of (xs : List Operand) (d : Demand) : Prop where
  single : ∀ o ∈ xs, o.arity = 1
  fixed : ∀ t, d.fixed = some t ↔ ∃ o ∈ xs, o.ty? = some t
  pending : ∀ c, c ∈ d.pending ↔ .const c ∈ xs ∧ c.isBound = false

theorem of_nil : Demand.Of [] {} where
  single := by simp
  fixed := by simp
  pending := by simp

/-- An open constant joins those that wait. -/
theorem Demand.Of.addOpen {c : Const} (hd : d.Of xs) (hb : c.isBound = false) :
    Demand.Of (xs ++ [.const c]) { d with pending := d.pending ++ [c] } where
  single := by simpa [or_imp, forall_and] using ⟨hd.single, rfl⟩
  fixed t := by
    have hnone : (Operand.const c).ty? = none := Const.ty?_of_open hb
    simp [hd.fixed t, hnone, or_and_right, exists_or]
  pending c' := by
    simp only [List.mem_append, List.mem_singleton, hd.pending, Operand.const.injEq]
    constructor
    · rintro (hc' | rfl)
      · exact ⟨.inl hc'.1, hc'.2⟩
      · exact ⟨.inr rfl, hb⟩
    · rintro ⟨hc' | rfl, hb'⟩
      · exact .inl ⟨hc', hb'⟩
      · exact .inr rfl

/-- A type may come up again, but no other. -/
theorem Demand.Of.addTyped (hd : d.Of xs) (hone : o.arity = 1) (ht : o.ty? = some t)
    (hsame : ∀ u ∈ d.fixed, u = t) : Demand.Of (xs ++ [o]) { d with fixed := some t } where
  single := by simpa [or_imp, forall_and] using ⟨hd.single, hone⟩
  fixed u := by
    constructor
    · intro hu
      exact ⟨o, by simp, Option.some.inj hu ▸ ht⟩
    · rintro ⟨o', ho', hu⟩
      rcases List.mem_append.mp ho' with hmem | hmem
      · rw [hsame u ((hd.fixed u).mpr ⟨o', hmem, hu⟩)]
      · rw [List.mem_singleton.mp hmem, ht] at hu
        exact hu
  pending c := by
    have hne : .const c = o → c.isBound = true := by
      rintro rfl
      exact Const.isBound_of_ty? ht
    simp only [hd.pending, List.mem_append, List.mem_singleton]
    constructor
    · rintro ⟨hc, hb⟩
      exact ⟨.inl hc, hb⟩
    · rintro ⟨hc | hc, hb⟩
      · exact ⟨hc, hb⟩
      · rw [hne hc] at hb
        cases hb

/-- A reachable element never leads to a fault. -/
theorem Demand.Of.yields_add (hd : d.Of xs) (ho : o.Reachable) :
    Yields (Demand.Of (xs ++ [o])) (d.add o) := by
  by_cases hone : o.arity = 1
  · cases ht : o.ty? with
    | none =>
      obtain ⟨c, rfl, hb⟩ := ho.exists_open hone ht
      rw [add_of_open hb]
      exact hd.addOpen hb
    | some t =>
      rw [add_of_ty? hone ht]
      split
      · next hsame => exact hd.addTyped hone ht hsame
      · trivial
  · obtain ⟨e, he⟩ := exists_add_error (d := d) hone
    rw [he]
    trivial

/-- By induction on the elements. It fails at the first one whose type is another, or which is no
value. -/
theorem Demand.Of.yields_foldlM {rest : List Operand} (hd : d.Of xs)
    (hreach : ∀ o ∈ rest, o.Reachable) :
    Yields (Demand.Of (xs ++ rest)) (rest.foldlM Demand.add d) := by
  induction rest generalizing xs d with
  | nil =>
    rw [List.append_nil]
    exact hd
  | cons o rest ih =>
    obtain ⟨ho, hrest⟩ := List.forall_mem_cons.mp hreach
    rw [List.foldlM_cons, List.append_cons]
    exact (hd.yields_add ho).bind fun d' hd' => ih hd' hrest

/-- Single values whose types agree are accepted. -/
theorem Demand.Of.exists_foldlM {rest : List Operand} (hd : d.Of xs)
    (hreach : ∀ o ∈ rest, o.Reachable) (hone : ∀ o ∈ rest, o.arity = 1)
    (hsame : ∀ o ∈ xs ++ rest, ∀ u, o.ty? = some u → u = t) :
    ∃ d', rest.foldlM Demand.add d = .ok d' := by
  induction rest generalizing xs d with
  | nil => exact ⟨d, rfl⟩
  | cons o rest ih =>
    obtain ⟨ho, hrest⟩ := List.forall_mem_cons.mp hreach
    obtain ⟨hone, hones⟩ := List.forall_mem_cons.mp hone
    rw [List.append_cons] at hsame
    obtain ⟨d', hadd⟩ : ∃ d', d.add o = .ok d' := by
      cases ht : o.ty? with
      | none =>
        obtain ⟨c, rfl, hb⟩ := ho.exists_open hone ht
        exact ⟨_, add_of_open hb⟩
      | some u =>
        refine ⟨_, (add_of_ty? hone ht).trans (if_pos ?_)⟩
        intro w hw
        obtain ⟨o', ho', hw'⟩ := (hd.fixed w).mp hw
        have hu : u = t := hsame o (by simp) u ht
        have hwt : w = t := hsame o' (by simp [ho']) w hw'
        rw [hu, hwt]
    have hd' := hd.yields_add ho
    rw [hadd] at hd'
    rw [List.foldlM_cons, hadd]
    exact ih hd' hrest hones hsame

/-! ## Meeting the demand -/

/-- A fixed type must take all constants that have to convert; without one they must share their
default type. -/
inductive Demand.Met (d : Demand) (t : Ty) : Prop
  | fixed (h : d.fixed = some t) (hpending : ∀ c ∈ d.pending, Const.convertible c.value t = true)
  | shared (h : d.fixed = none) (hne : d.pending ≠ [])
    (hpending : ∀ c ∈ d.pending, c.defaultType = .ok t)

/-- Where there is a type the open constants have to be convertible to it. -/
theorem meet_of_fixed (h : d.fixed = some t) :
    d.meet = if ∀ c ∈ d.pending, Const.convertible c.value t = true then .ok (some t)
      else .error (.error .mismatchedElements) := by
  unfold Demand.meet
  rw [h]
  simp only [List.all_eq_true]

/-- Where there is none they have to have the same default. -/
theorem meet_of_open {c : Const} {cs : List Const} (h : d.fixed = none)
    (hpending : d.pending = c :: cs) (hbasic : c.defaultKind.isBasic = true) :
    d.meet = if ∀ c' ∈ cs, c'.defaultKind = c.defaultKind then .ok (some (.basic c.defaultKind))
      else .error (.error .mismatchedElements) := by
  unfold Demand.meet
  rw [h, hpending]
  by_cases hsame : ∀ c' ∈ cs, c'.defaultKind = c.defaultKind
  · have hcommon : commonKind (c :: cs) = .ok (some c.defaultKind) := by
      simpa [commonKind] using hsame
    rw [if_pos hsame]
    simp [hcommon, Const.typeOfKind, Ty.ofKind?, hbasic]
  · have hcommon : commonKind (c :: cs) = .error .mismatchedElements := by
      simpa [commonKind] using hsame
    rw [if_neg hsame]
    simp [hcommon]

/-- The type that is demanded is the one that there is. -/
theorem met_iff_of_fixed {u : Ty} (h : d.fixed = some u) :
    d.Met t ↔ u = t ∧ ∀ c ∈ d.pending, Const.convertible c.value u = true := by
  constructor
  · rintro (⟨hfixed, hpending⟩ | ⟨hfixed, -, -⟩)
    · obtain rfl : u = t := Option.some.inj (h.symm.trans hfixed)
      exact ⟨rfl, hpending⟩
    · cases h.symm.trans hfixed
  · rintro ⟨rfl, hpending⟩
    exact .fixed h hpending

/-- Without a type, the default decides for all. -/
theorem met_iff_of_open (h : d.fixed = none) :
    d.Met t ↔ d.pending ≠ [] ∧ ∀ c ∈ d.pending, c.defaultType = .ok t := by
  constructor
  · rintro (⟨hfixed, -⟩ | ⟨-, hne, hpending⟩)
    · cases h.symm.trans hfixed
    · exact ⟨hne, hpending⟩
  · rintro ⟨hne, hpending⟩
    exact .shared h hne hpending

/-- The demand is met by the type found, and a type is missing only if nothing was asked for. There
are no faults. -/
theorem meet_cases (hbasic : ∀ c ∈ d.pending, c.defaultKind.isBasic = true) :
    (∃ t, d.meet = .ok (some t) ∧ ∀ u, d.Met u ↔ u = t) ∨
      (d.meet = .ok none ∧ d.fixed = none ∧ d.pending = []) ∨
      ∃ e, d.meet = .error (.error e) ∧ ∀ u, ¬ d.Met u := by
  cases hfixed : d.fixed with
  | some t =>
    simp only [met_iff_of_fixed hfixed, meet_of_fixed hfixed]
    by_cases hconvertible : ∀ c ∈ d.pending, Const.convertible c.value t = true
    · refine .inl ⟨t, if_pos hconvertible, fun u => ?_⟩
      exact ⟨fun h => h.1.symm, fun h => ⟨h.symm, hconvertible⟩⟩
    · exact .inr (.inr ⟨_, if_neg hconvertible, fun u h => hconvertible h.2⟩)
  | none =>
    simp only [met_iff_of_open hfixed]
    cases hpending : d.pending with
    | nil =>
      refine .inr (.inl ⟨?_, trivial, rfl⟩)
      unfold Demand.meet
      rw [hfixed, hpending]
      rfl
    | cons c cs =>
      rw [hpending] at hbasic
      obtain ⟨hc, hcs⟩ := List.forall_mem_cons.mp hbasic
      simp only [meet_of_open hfixed hpending hc, List.forall_mem_cons,
        Const.defaultType_eq_ok_iff hc]
      by_cases hsame : ∀ c' ∈ cs, c'.defaultKind = c.defaultKind
      · refine .inl ⟨_, if_pos hsame, fun u => ⟨fun h => h.2.1, fun h => ⟨by simp, h, ?_⟩⟩⟩
        intro c' hc'
        rw [Const.defaultType_eq_ok_iff (hcs c' hc'), hsame c' hc', h]
      · refine .inr (.inr ⟨_, if_neg hsame, ?_⟩)
        rintro u ⟨-, rfl, hu⟩
        refine hsame fun c' hc' => ?_
        have hdefault := (Const.defaultType_eq_ok_iff (hcs c' hc')).mp (hu c' hc')
        exact (Ty.basic.inj hdefault).symm

/-! ## Agreement -/

/-- The type `t` is the one for all elements: each is a single value that can be used at `t`, and
`t` is the type of those that have one, or else the default of all. -/
structure Agrees (t : Ty) (among : Operand → Prop) : Prop where
  single : ∀ o, among o → o.arity = 1
  usable : ∀ o, among o → o.UsableAt t
  fixed : ∀ o u, among o → o.ty? = some u → u = t
  default : (∀ o, among o → o.ty? = none) →
    ∀ o, among o → ∃ c, o = .const c ∧ c.defaultType = .ok t

/-- The elements come up in a compilation, and no constant among them waits for its place. -/
structure Proper (xs : List Operand) : Prop where
  reachable : ∀ o ∈ xs, o.Reachable
  unreserved : ∀ c, .const c ∈ xs → c.reservation = none

theorem Proper.stored (hxs : Proper xs) {c : Const} (hc : .const c ∈ xs) : c.Stored :=
  Const.stored_of_reachable (hxs.reachable _ hc).of_const

/-- What has a type can be used at it. -/
theorem Proper.usable_of_ty? (hxs : Proper xs) (ho : o ∈ xs) (h : o.ty? = some t) :
    o.UsableAt t := by
  cases o with
  | const c =>
    rw [Operand.usableAt_const_iff (hxs.unreserved c ho)]
    exact ⟨_, Const.boundAs_of_ty? (hxs.stored ho) h⟩
  | _ => exact h

/-- An element has a type, or is a constant that still has to convert. -/
theorem Demand.Of.typed_or_pending (hd : d.Of xs) (hxs : Proper xs) (ho : o ∈ xs) :
    (∃ u, o.ty? = some u ∧ d.fixed = some u) ∨ ∃ c, o = .const c ∧ c ∈ d.pending := by
  cases ht : o.ty? with
  | some u => exact .inl ⟨u, rfl, (hd.fixed u).mpr ⟨o, ho, ht⟩⟩
  | none =>
    obtain ⟨c, rfl, hb⟩ := (hxs.reachable o ho).exists_open (hd.single o ho) ht
    exact .inr ⟨c, rfl, (hd.pending c).mpr ⟨ho, hb⟩⟩

theorem Demand.Of.isBasic (hd : d.Of xs) (hxs : Proper xs) {c : Const} (hc : c ∈ d.pending) :
    c.defaultKind.isBasic = true := by
  obtain ⟨hmem, hb⟩ := (hd.pending c).mp hc
  exact Const.isBasic_defaultKind (hxs.stored hmem) hb

/-- No type has come up if none is fixed. -/
theorem Demand.Of.untyped (hd : d.Of xs) (h : d.fixed = none) (ho : o ∈ xs) : o.ty? = none := by
  cases ht : o.ty? with
  | none => rfl
  | some u =>
    have hu := (hd.fixed u).mpr ⟨o, ho, ht⟩
    rw [h] at hu
    cases hu

/-- A type that meets the demand of the elements is one on which they agree. -/
theorem Demand.Of.agrees (hd : d.Of xs) (hxs : Proper xs) (h : d.Met t) : Agrees t (· ∈ xs) := by
  cases h with
  | fixed hfixed hpending =>
    refine ⟨hd.single, fun o ho => ?_, fun o u ho hu => ?_, fun hnone => ?_⟩
    · rcases hd.typed_or_pending hxs ho with ⟨u, hu, hufixed⟩ | ⟨c, rfl, hc⟩
      · obtain rfl : t = u := Option.some.inj (hfixed.symm.trans hufixed)
        exact hxs.usable_of_ty? ho hu
      · have hb := ((hd.pending c).mp hc).2
        rw [Operand.usableAt_const_iff (hxs.unreserved c ho)]
        exact (Const.convertible_iff (hxs.stored ho) hb).mp (hpending c hc)
    · have hufixed := (hd.fixed u).mpr ⟨o, ho, hu⟩
      exact Option.some.inj (hufixed.symm.trans hfixed)
    · obtain ⟨o, ho, ht⟩ := (hd.fixed t).mp hfixed
      rw [hnone o ho] at ht
      cases ht
  | shared hfixed _ hpending =>
    have hopen : ∀ o ∈ xs, ∃ c, o = .const c ∧ c ∈ d.pending := by
      intro o ho
      rcases hd.typed_or_pending hxs ho with ⟨u, -, hu⟩ | hopen
      · rw [hfixed] at hu
        cases hu
      · exact hopen
    refine ⟨hd.single, fun o ho => ?_, fun o u ho hu => ?_, fun _ o ho => ?_⟩
    · obtain ⟨c, rfl, hc⟩ := hopen o ho
      have hb := ((hd.pending c).mp hc).2
      rw [Operand.usableAt_const_iff (hxs.unreserved c ho)]
      obtain ⟨u, hu, -⟩ := Const.boundAs_defaultType (hxs.stored ho) hb (hpending c hc)
      exact ⟨_, hu⟩
    · rw [hd.untyped hfixed ho] at hu
      cases hu
    · obtain ⟨c, rfl, hc⟩ := hopen o ho
      exact ⟨c, rfl, hpending c hc⟩

/-- Conversely, a type on which the elements agree meets their demand. -/
theorem Demand.Of.met (hd : d.Of xs) (hxs : Proper xs) (hne : xs ≠ []) (h : Agrees t (· ∈ xs)) :
    d.Met t := by
  cases hfixed : d.fixed with
  | some u =>
    obtain ⟨o, ho, hu⟩ := (hd.fixed u).mp hfixed
    obtain rfl := h.fixed o u ho hu
    refine .fixed hfixed fun c hc => ?_
    obtain ⟨hmem, hb⟩ := (hd.pending c).mp hc
    rw [Const.convertible_iff (hxs.stored hmem) hb]
    exact (Operand.usableAt_const_iff (hxs.unreserved c hmem)).mp (h.usable _ hmem)
  | none =>
    refine .shared hfixed (fun hpending => ?_) fun c hc => ?_
    · obtain ⟨o, ho⟩ := List.exists_mem_of_ne_nil xs hne
      rcases hd.typed_or_pending hxs ho with ⟨u, -, hu⟩ | ⟨c, -, hc⟩
      · rw [hfixed] at hu
        cases hu
      · rw [hpending] at hc
        cases hc
    · have hmem := ((hd.pending c).mp hc).1
      obtain ⟨c', hc', hdefault⟩ := h.default (fun o ho => hd.untyped hfixed ho) _ hmem
      rw [Operand.const.inj hc']
      exact hdefault

/-! ## The type of a literal's elements -/

theorem ofElements_eq_bind (xs : List Operand) :
    ofElements xs = xs.foldlM Demand.add {} >>= Demand.meet := by
  unfold ofElements
  cases xs.foldlM Demand.add {} <;> rfl

/-- Nothing was asked for only if there was no element. -/
theorem Demand.Of.eq_nil_iff (hd : d.Of xs) (hxs : Proper xs) :
    xs = [] ↔ d.fixed = none ∧ d.pending = [] := by
  constructor
  · rintro rfl
    refine ⟨Option.eq_none_iff_forall_ne_some.mpr fun u hu => ?_, ?_⟩
    · obtain ⟨o, ho, -⟩ := (hd.fixed u).mp hu
      cases ho
    · refine List.eq_nil_iff_forall_not_mem.mpr fun c hc => ?_
      cases ((hd.pending c).mp hc).1
  · rintro ⟨hfixed, hpending⟩
    refine List.eq_nil_iff_forall_not_mem.mpr fun o ho => ?_
    rcases hd.typed_or_pending hxs ho with ⟨u, -, hu⟩ | ⟨c, -, hc⟩
    · cases hfixed.symm.trans hu
    · rw [hpending] at hc
      cases hc

/-- No type without elements, a type on which they agree, or an error. -/
theorem ofElements_cases (hxs : Proper xs) :
    (ofElements xs = .ok none ∧ xs = []) ∨
      (∃ t, ofElements xs = .ok (some t) ∧ xs ≠ [] ∧ Agrees t (· ∈ xs)) ∨
      ∃ e, ofElements xs = .error (.error e) := by
  rw [ofElements_eq_bind]
  rcases yields_iff.mp (of_nil.yields_foldlM hxs.reachable) with ⟨d, hfold, hd⟩ | ⟨e, he⟩
  · rw [List.nil_append] at hd
    rw [hfold]
    have hnil := hd.eq_nil_iff hxs
    rcases meet_cases fun c hc => hd.isBasic hxs hc with
      ⟨t, hmeet, hmet⟩ | ⟨hmeet, hnothing⟩ | ⟨e, hmeet, -⟩
    · have ht : d.Met t := (hmet t).mpr rfl
      refine .inr (.inl ⟨t, hmeet, fun hxs => ?_, hd.agrees hxs ht⟩)
      obtain ⟨hfixed, hpending⟩ := hnil.mp hxs
      exact ((met_iff_of_open hfixed).mp ht).1 hpending
    · exact .inl ⟨hmeet, hnil.mpr hnothing⟩
    · exact .inr (.inr ⟨e, hmeet⟩)
  · rw [he]
    exact .inr (.inr ⟨e, rfl⟩)

/-- Elements that agree have their type found. -/
theorem ofElements_of_agrees (hxs : Proper xs) (hne : xs ≠ []) (h : Agrees t (· ∈ xs)) :
    ofElements xs = .ok (some t) := by
  obtain ⟨d, hfold⟩ := of_nil.exists_foldlM hxs.reachable h.single
    (fun o ho u hu => h.fixed o u ho hu)
  have hd := of_nil.yields_foldlM hxs.reachable
  rw [hfold, List.nil_append] at hd
  have hd : d.Of xs := hd
  have hmet := hd.met hxs hne h
  rw [ofElements_eq_bind, hfold]
  rcases meet_cases fun c hc => hd.isBasic hxs hc with
    ⟨u, hmeet, hu⟩ | ⟨-, hnothing⟩ | ⟨e, -, hunmet⟩
  · rw [(hu t).mp hmet]
    exact hmeet
  · exact absurd ((hd.eq_nil_iff hxs).mpr hnothing) hne
  · exact absurd hmet (hunmet t)

variable {base max step : Nat}

theorem Proper.select (hxs : Proper elements) (hstep : 1 ≤ step) :
    Proper (select base max step elements) where
  reachable o ho := hxs.reachable o ((mem_select_iff hstep).mp ho).mem
  unreserved c hc := hxs.unreserved c ((mem_select_iff hstep).mp hc).mem

/-- The places are visited one after the other, so it is the same to select them first. -/
theorem unify_eq_ofElements (hbase : base ≤ max) (hmax : max ≤ elements.length)
    (hstep : 1 ≤ step) :
    unify elements base max step = ofElements (select base max step elements) := by
  unfold unify
  rw [if_neg (by omega), if_neg (by omega)]

/-- **The element type is the type on which the selected elements agree.** It is found exactly if
there is one and an element is selected; there is none, without an error, exactly if no element is
selected; and a valid range with a step above zero never leads to a fault. -/
theorem unify_sound (hxs : Proper elements) (hbase : base ≤ max) (hmax : max ≤ elements.length)
    (hstep : 1 ≤ step) :
    (∀ t, unify elements base max step = .ok (some t) ↔
      (∃ o, Selected elements base max step o) ∧ Agrees t (Selected elements base max step)) ∧
    (unify elements base max step = .ok none ↔ ∀ o, ¬ Selected elements base max step o) ∧
    ∀ f, unify elements base max step ≠ .error (.fault f) := by
  have hselected : (· ∈ select base max step elements) = Selected elements base max step :=
    funext fun o => propext (mem_select_iff hstep)
  have hnil : select base max step elements = [] ↔ ∀ o, ¬ Selected elements base max step o := by
    rw [← hselected, List.eq_nil_iff_forall_not_mem]
  have hne : select base max step elements ≠ [] ↔ ∃ o, Selected elements base max step o := by
    rw [← not_iff_not, not_not, hnil, not_exists]
  have hproper : Proper (select base max step elements) := hxs.select hstep
  rw [unify_eq_ofElements hbase hmax hstep, ← hne, ← hnil, ← hselected]
  have hcases := ofElements_cases hproper
  refine ⟨fun t => ⟨fun h => ?_, fun h => ofElements_of_agrees hproper h.1 h.2⟩, ⟨?_, ?_⟩, ?_⟩
  · rcases hcases with ⟨hnone, -⟩ | ⟨u, hu, hagrees⟩ | ⟨e, he⟩
    · cases hnone.symm.trans h
    · obtain rfl : u = t := by simpa using hu.symm.trans h
      exact hagrees
    · cases he.symm.trans h
  · intro h
    rcases hcases with ⟨-, hnone⟩ | ⟨u, hu, -⟩ | ⟨e, he⟩
    · exact hnone
    · cases hu.symm.trans h
    · cases he.symm.trans h
  · intro h
    rw [h]
    rfl
  · intro f hf
    rcases hcases with ⟨hnone, -⟩ | ⟨u, hu, -⟩ | ⟨e, he⟩
    · cases hnone.symm.trans hf
    · cases hu.symm.trans hf
    · cases he.symm.trans hf

/-- Keys and values in turn; the last value has a type with a name. -/
def temperatures : List Operand :=
  [.const (.typed (.string "low")), .const (.int (-40)), .const (.typed (.string "high")),
    .value (.defined "main" "Celsius" (.basic (.float .double)))]

theorem proper_temperatures : Proper temperatures where
  reachable := by
    simp only [temperatures, List.forall_mem_cons, List.not_mem_nil, false_imp_iff, implies_true]
    exact ⟨.const (.literal (l := .typed _) rfl), .const (.literal (l := .int _) rfl),
      .const (.literal (l := .typed _) rfl), .value _, trivial⟩
  unreserved := by
    simp [temperatures, Const.typed, Const.int, or_imp, forall_and]

theorem unify_temperatures :
    Agrees (.defined "main" "Celsius" (.basic (.float .double))) (Selected temperatures 1 4 2) ∧
      Agrees .string (Selected temperatures 0 4 2) :=
  ⟨((unify_sound proper_temperatures (by decide) (by decide) (by decide)).1 _).mp
      (eq_ok_of_toOption (by decide +kernel)) |>.2,
    ((unify_sound proper_temperatures (by decide) (by decide) (by decide)).1 _).mp
      (eq_ok_of_toOption (by decide +kernel)) |>.2⟩

end ElementType

end Lowering
