import Lowering.Proofs.Bytecode.Stream
import Lowering.Proofs.Constant.Soundness
import Lowering.Proofs.Source.Slots

/-!
# Binding constants in a backend

A constant that waits for its type owns a place in the output, and may be tried at one type after
another until one fits. `attempts` records such a sequence, and `BindsOnce` is its law: a failed
attempt changes nothing, the first success fills the place, and after it nothing changes any more.

The steps of an attempt come to what the function `Const.bindIn` says (`attempt_eq_bindIn`). The law
needs three facts about a backend, collected in `KeepsPlaces`: a new place is open, it stays open
until it is filled, and an open place can be filled. Main statement: `Const.bindings_fillOnce`, the
law for both backends.
-/

namespace Lowering

namespace Const

variable {c : Const} {t : Ty} {v : Value} {k : Kind}

/-! ## Kinds of bound constants -/

theorem isUntyped_kind (v : Value) : v.kind.isUntyped = false := by
  cases v <;> rfl

theorem isUntyped_of_represent {u : Value} (h : v.represent k = .ok u) : k.isUntyped = false := by
  by_cases hk : k = .interface
  · rw [hk]
    rfl
  · rw [← kind_of_represent h hk]
    exact isUntyped_kind u

/-- What is reported when a constant of the bound kind `k` is tried at `t`. -/
def verdict (k : Kind) (t : Ty) : Except CompileError Unit :=
  if t.isEmptyInterface ∨ t.kind = k then .ok () else .error (.typeMismatch t.text k.name)

/-- A bound constant keeps value and kind, and takes only a type of its kind or the empty
interface. -/
theorem boundAs_of_isBound (h : c.isBound = true) :
    c.boundAs t = (verdict c.kind t).map fun _ => (c.value, c.kind) := by
  have haccepts : (c.kind = c.targetKind t ∨ t.isEmptyInterface = true) ↔
      (t.isEmptyInterface = true ∨ t.kind = c.kind) := by
    unfold targetKind
    by_cases hi : t.isEmptyInterface = true
    · simp [hi]
    · simp [hi, eq_comm]
  unfold boundAs verdict
  rw [if_pos h]
  by_cases ha : t.isEmptyInterface = true ∨ t.kind = c.kind
  · rw [if_pos (haccepts.mpr ha), if_pos ha]
    rfl
  · rw [if_neg (mt haccepts.mp ha), if_neg ha]
    rfl

theorem eq_of_boundAs (hbound : c.isBound = true) (h : c.boundAs t = .ok (v, k)) :
    v = c.value ∧ k = c.kind := by
  rw [boundAs_of_isBound hbound] at h
  cases hv : verdict c.kind t with
  | error e =>
    rw [hv] at h
    cases h
  | ok u =>
    rw [hv] at h
    obtain ⟨hvalue, hkind⟩ := Prod.mk.inj (Except.ok.inj h)
    exact ⟨hvalue.symm, hkind.symm⟩

/-- An open constant is converted to the kind that the type asks for. -/
theorem boundAs_eq_ok_of_open (hopen : c.isBound = false) :
    c.boundAs t = .ok (v, k) ↔ c.value.represent k = .ok v ∧ k = c.targetKind t := by
  unfold boundAs
  rw [hopen, if_neg Bool.false_ne_true]
  constructor
  · intro h
    cases hr : c.value.represent (c.targetKind t) with
    | error e =>
      rw [hr] at h
      cases h
    | ok u =>
      rw [hr] at h
      cases h
      exact ⟨hr, rfl⟩
  · rintro ⟨hr, rfl⟩
    rw [hr]

/-- Binding closes the kind. -/
theorem isUntyped_of_boundAs (h : c.boundAs t = .ok (v, k)) : k.isUntyped = false := by
  cases hb : c.isBound with
  | true =>
    rw [(eq_of_boundAs hb h).2]
    simpa [isBound] using hb
  | false => exact isUntyped_of_represent ((boundAs_eq_ok_of_open hb).mp h).1

end Const

/-! ## One attempt -/

namespace Binding

variable {β : Type} {c : Const} {b : β} {t : Ty} {v : Value} {k : Kind} {e : CompileError}
  {r : Reservation}

/-- Conversion gives value and kind, or an error and no change. -/
theorem convert_eq (c : Const) (t : Ty) (b : β) :
    convert t (c, b) = .ok (match c.boundAs t with
      | .ok (v, k) => (.ok (), { c with value := v, kind := k }, b)
      | .error e => (.error e, c, b)) := by
  show (if c.isBound then _ else _ : Binding β Unit) (c, b) = _
  unfold Const.boundAs
  by_cases hb : c.isBound = true
  · rw [if_pos hb, if_pos hb]
    by_cases ht : c.kind = c.targetKind t ∨ t.isEmptyInterface = true
    · rw [if_pos ht, if_pos ht]
      rfl
    · rw [if_neg ht, if_neg ht]
      rfl
  · rw [if_neg hb, if_neg hb]
    cases c.value.represent (c.targetKind t) <;> rfl

variable [Backend β]

theorem settle_of_none (h : c.reservation = none) : settle (c, b) = .ok (.ok (), c, b) := by
  obtain ⟨v, k, _⟩ := c
  cases h
  rfl

theorem settle_of_some (h : c.reservation = some r) :
    settle (c, b) = (Backend.step b (.fill r c.value)).map
      fun b' => (.ok (), { c with reservation := none }, b') := by
  obtain ⟨v, k, _⟩ := c
  cases h
  show ((liftM (Backend.step b (.fill r v)) : Binding β β) >>=
    fun b' => set (({ value := v, kind := k } : Const), b')) ({ value := v, kind := k }, b) = _
  cases Backend.step b (.fill r v) <;> rfl

theorem attempt_of_error (h : c.boundAs t = .error e) :
    attempt t (c, b) = .ok (.error e, c, b) := by
  have hconvert := convert_eq c t b
  rw [h] at hconvert
  show (convert t (c, b) >>= _) = _
  rw [hconvert]
  rfl

theorem attempt_of_ok (h : c.boundAs t = .ok (v, k)) :
    attempt t (c, b) = settle ({ c with value := v, kind := k }, b) := by
  have hconvert := convert_eq c t b
  rw [h] at hconvert
  show (convert t (c, b) >>= _) = _
  rw [hconvert]
  rfl

/-- An attempt that ends without a fault changed nothing, or made the constant a bound one that
owns no place. -/
theorem cases_of_attempt {outcome : Except CompileError Unit} {c' : Const} {b' : β}
    (h : attempt t (c, b) = .ok (outcome, c', b')) :
    (∃ e, outcome = .error e ∧ c.boundAs t = .error e ∧ c' = c ∧ b' = b) ∨
      ∃ v k, outcome = .ok () ∧ c.boundAs t = .ok (v, k) ∧ c' = { value := v, kind := k } := by
  cases hbound : c.boundAs t with
  | error e =>
    rw [attempt_of_error hbound] at h
    cases h
    exact .inl ⟨e, rfl, rfl, rfl, rfl⟩
  | ok bound =>
    obtain ⟨v, k⟩ := bound
    rw [attempt_of_ok hbound] at h
    refine .inr ⟨v, k, ?_⟩
    obtain ⟨value, kind, _ | r⟩ := c
    · rw [settle_of_none rfl] at h
      cases h
      exact ⟨rfl, rfl, rfl⟩
    · rw [settle_of_some rfl] at h
      cases hstep : Backend.step b (.fill r v) with
      | error f =>
        rw [hstep] at h
        cases h
      | ok m =>
        rw [hstep] at h
        cases h
        exact ⟨rfl, rfl, rfl⟩

/-- An attempt ends as `bindIn` says, and an error leaves the constant and the backend as they
were. -/
theorem attempt_eq_bindIn (c : Const) (t : Ty) (b : β) :
    attempt t (c, b) =
      match c.bindIn t b with
      | .ok after => .ok (.ok (), after)
      | .error (.error e) => .ok (.error e, c, b)
      | .error (.fault f) => .error f := by
  unfold Const.bindIn Const.bind
  cases h : c.boundAs t with
  | error e => exact attempt_of_error h
  | ok bound =>
    obtain ⟨v, k⟩ := bound
    rw [attempt_of_ok h]
    cases hr : c.reservation with
    | none =>
      rw [settle_of_none rfl]
      rfl
    | some r =>
      rw [settle_of_some rfl]
      dsimp only [Option.map_some]
      cases Backend.step b (.fill r v) <;> rfl

end Binding

/-! ## Sequences of attempts -/

/-- One attempt of a sequence: the states around it and what it reported. -/
structure Attempt (β : Type) where
  ty : Ty
  before : Const × β
  outcome : Except CompileError Unit
  after : Const × β

section BindsOnce

variable {β : Type}

def Attempt.Succeeds (a : Attempt β) : Prop := a.outcome = .ok ()

/-- The attempt at `t` in a state with a bound constant that owns no place. -/
def Attempt.steady (s : Const × β) (t : Ty) : Attempt β := ⟨t, s, Const.verdict s.1.kind t, s⟩

/-- The law of a sequence of attempts to bind `c`, which waits at the place `r` of the backend `b`.
`Filled r v` relates a backend to itself with `v` in the place. -/
structure BindsOnce (Filled : Reservation → Value → β → β → Prop) (c : Const) (r : Reservation)
    (b : β) (ts : List Ty) (history : List (Attempt β)) : Prop where
  /-- Every type is tried. -/
  types : history.map (·.ty) = ts
  /-- An attempt that fails changes neither the constant nor the backend. -/
  unchanged : ∀ a ∈ history, ¬ a.Succeeds → a.after = a.before
  /-- Up to the first success the constant waits. It is converted if it can be: then it goes to its
  place, which it owns no longer. -/
  waiting : ∀ earlier a later, history = earlier ++ a :: later → (∀ d ∈ earlier, ¬ d.Succeeds) →
    a.before = ({ c with reservation := some r }, b) ∧
    a.outcome = (c.boundAs a.ty).map (fun _ => ()) ∧
    ∀ v k, c.boundAs a.ty = .ok (v, k) →
      a.after.1 = { value := v, kind := k } ∧ Filled r v b a.after.2
  /-- After a success nothing changes, and a type is accepted if it is the empty interface or has
  the kind of the constant. -/
  settled : ∀ earlier a later, history = earlier ++ a :: later → a.Succeeds → ∀ d ∈ later,
    d.before = a.after ∧ d.after = a.after ∧ d.outcome = Const.verdict a.after.1.kind d.ty
  /-- A constant that was bound before keeps its value and its kind. -/
  bound : c.isBound = true → ∀ a ∈ history, a.after.1.value = c.value ∧ a.after.1.kind = c.kind

variable {c : Const} {r : Reservation} {b b' : β} {t : Ty} {ts : List Ty} {v : Value} {k : Kind}
  {e : CompileError} {Filled : Reservation → Value → β → β → Prop} {history : List (Attempt β)}

theorem bindsOnce_nil : BindsOnce Filled c r b [] [] where
  types := rfl
  unchanged _ ha := absurd ha List.not_mem_nil
  waiting earlier _ _ h := absurd h.symm (List.append_ne_nil_of_right_ne_nil earlier (by simp))
  settled earlier _ _ h := absurd h.symm (List.append_ne_nil_of_right_ne_nil earlier (by simp))
  bound _ _ ha := absurd ha List.not_mem_nil

/-- A failed attempt before the others. -/
theorem BindsOnce.failed (h : BindsOnce Filled c r b ts history)
    (herror : c.boundAs t = .error e) :
    BindsOnce Filled c r b (t :: ts)
      (⟨t, ({ c with reservation := some r }, b), .error e,
        ({ c with reservation := some r }, b)⟩ :: history) where
  types := by rw [List.map_cons, h.types]
  unchanged := by
    intro a ha hfails
    rcases List.mem_cons.mp ha with rfl | ha
    · rfl
    · exact h.unchanged a ha hfails
  waiting := by
    intro earlier a later hsplit hearlier
    rcases List.cons_eq_append_iff.mp hsplit with ⟨rfl, hsplit⟩ | ⟨earlier, rfl, rfl⟩
    · obtain ⟨rfl, rfl⟩ := List.cons.inj hsplit
      refine ⟨rfl, by rw [herror]; rfl, ?_⟩
      intro v k hok
      rw [herror] at hok
      cases hok
    · exact h.waiting earlier a later rfl fun d hd => hearlier d (List.mem_cons_of_mem _ hd)
  settled := by
    intro earlier a later hsplit hsucceeds
    rcases List.cons_eq_append_iff.mp hsplit with ⟨rfl, hsplit⟩ | ⟨earlier, rfl, rfl⟩
    · obtain ⟨rfl, rfl⟩ := List.cons.inj hsplit
      cases hsucceeds
    · exact h.settled earlier a later rfl hsucceeds
  bound := by
    intro hbound a ha
    rcases List.mem_cons.mp ha with rfl | ha
    · exact ⟨rfl, rfl⟩
    · exact h.bound hbound a ha

/-- A successful attempt before any others. -/
theorem bindsOnce_succeeded (hok : c.boundAs t = .ok (v, k)) (hfilled : Filled r v b b')
    (ts : List Ty) :
    BindsOnce Filled c r b (t :: ts)
      (⟨t, ({ c with reservation := some r }, b), .ok (), ({ value := v, kind := k }, b')⟩ ::
        ts.map (Attempt.steady ({ value := v, kind := k }, b'))) where
  types := by simp [Attempt.steady, Function.comp_def]
  unchanged := by
    intro a ha hfails
    rcases List.mem_cons.mp ha with rfl | ha
    · exact absurd rfl hfails
    · obtain ⟨u, -, rfl⟩ := List.mem_map.mp ha
      rfl
  waiting := by
    intro earlier a later hsplit hearlier
    rcases List.cons_eq_append_iff.mp hsplit with ⟨rfl, hsplit⟩ | ⟨earlier, rfl, -⟩
    · obtain ⟨rfl, rfl⟩ := List.cons.inj hsplit
      refine ⟨rfl, by rw [hok]; rfl, ?_⟩
      intro v' k' hok'
      obtain ⟨rfl, rfl⟩ := Prod.mk.inj (Except.ok.inj (hok.symm.trans hok'))
      exact ⟨rfl, hfilled⟩
    · exact absurd rfl (hearlier _ List.mem_cons_self)
  settled := by
    intro earlier a later hsplit hsucceeds d hd
    rcases List.cons_eq_append_iff.mp hsplit with ⟨rfl, hsplit⟩ | ⟨earlier, rfl, hrest⟩
    · obtain ⟨rfl, rfl⟩ := List.cons.inj hsplit
      obtain ⟨u, -, rfl⟩ := List.mem_map.mp hd
      exact ⟨rfl, rfl, rfl⟩
    · -- Neither `a` nor `d` is the first attempt, so both are steady in the same state.
      have ha : a ∈ earlier ++ a :: later := by simp
      have hd : d ∈ earlier ++ a :: later := by simp [hd]
      rw [← hrest] at ha hd
      obtain ⟨u, -, rfl⟩ := List.mem_map.mp ha
      obtain ⟨w, -, rfl⟩ := List.mem_map.mp hd
      exact ⟨rfl, rfl, rfl⟩
  bound := by
    intro hbound a ha
    have hsame := Const.eq_of_boundAs hbound hok
    rcases List.mem_cons.mp ha with rfl | ha
    · exact hsame
    · obtain ⟨u, -, rfl⟩ := List.mem_map.mp ha
      exact hsame

end BindsOnce

section Attempts

variable {β : Type} [Backend β] {c : Const} {r : Reservation} {b : β} {t : Ty} {ts : List Ty}
  {Filled : Reservation → Value → β → β → Prop} {history : List (Attempt β)}

/-- Attempts to bind to one type after another, each from where the one before it ended. -/
def attempts (s : Const × β) : List Ty → Except Fault (List (Attempt β))
  | [] => .ok []
  | t :: ts => do
    let (outcome, s') ← Binding.attempt t s
    return ⟨t, s, outcome, s'⟩ :: (← attempts s' ts)

theorem attempts_cons {s s' : Const × β} {outcome : Except CompileError Unit}
    (hfirst : Binding.attempt t s = .ok (outcome, s')) (hrest : attempts s' ts = .ok history) :
    attempts s (t :: ts) = .ok (⟨t, s, outcome, s'⟩ :: history) := by
  show (Binding.attempt t s >>= _) = _
  rw [hfirst]
  show (attempts s' ts >>= _) = _
  rw [hrest]
  rfl

/-- A bound constant without a place only gives its verdicts. -/
theorem attempts_of_isBound (hbound : c.isBound = true) (hplace : c.reservation = none) (b : β)
    (ts : List Ty) : attempts (c, b) ts = .ok (ts.map (Attempt.steady (c, b))) := by
  induction ts with
  | nil => rfl
  | cons t ts ih =>
    refine attempts_cons ?_ ih
    have has := Const.boundAs_of_isBound (t := t) hbound
    cases hv : Const.verdict c.kind t with
    | error e =>
      rw [hv] at has
      exact Binding.attempt_of_error has
    | ok u =>
      rw [hv] at has
      rw [Binding.attempt_of_ok has]
      exact Binding.settle_of_none hplace

/-- From an open place every sequence of attempts obeys the law. -/
theorem exists_bindsOnce (hfill : ∀ v, ∃ b', Backend.step b (.fill r v) = .ok b' ∧ Filled r v b b')
    (ts : List Ty) :
    ∃ history, attempts ({ c with reservation := some r }, b) ts = .ok history ∧
      BindsOnce Filled c r b ts history := by
  induction ts with
  | nil => exact ⟨[], rfl, bindsOnce_nil⟩
  | cons t ts ih =>
    cases hbound : c.boundAs t with
    | error e =>
      obtain ⟨history, hrest, h⟩ := ih
      exact ⟨_, attempts_cons (Binding.attempt_of_error hbound) hrest, h.failed hbound⟩
    | ok bound =>
      obtain ⟨v, k⟩ := bound
      obtain ⟨b', hstep, hfilled⟩ := hfill v
      have hfirst : Binding.attempt t ({ c with reservation := some r }, b) =
          .ok (.ok (), { value := v, kind := k }, b') := by
        rw [Binding.attempt_of_ok (c := { c with reservation := some r }) hbound,
          Binding.settle_of_some rfl, hstep]
        rfl
      have hclosed : ({ value := v, kind := k } : Const).isBound = true := by
        simp [Const.isBound, Const.isUntyped_of_boundAs hbound]
      exact ⟨_, attempts_cons hfirst (attempts_of_isBound hclosed rfl b' ts),
        bindsOnce_succeeded hbound hfilled ts⟩

end Attempts

/-! ## Backends with places -/

section KeepsPlaces

variable {β : Type} [Backend β]

/-- What binding needs to know about a backend: a new place is open, it stays open until it is
filled, and an open place can be filled with any value. -/
structure KeepsPlaces (Awaits : Reservation → β → Prop)
    (Filled : Reservation → Value → β → β → Prop) : Prop where
  reserve : ∀ {b b'}, Backend.step b .reserve = .ok b' → Awaits (Backend.nextReservation b) b'
  step : ∀ {r b c b'}, Awaits r b → Backend.step b c = .ok b' → (∀ v, c ≠ .fill r v) → Awaits r b'
  fill : ∀ {r b}, Awaits r b → ∀ v, ∃ b', Backend.step b (.fill r v) = .ok b' ∧ Filled r v b b'

/-- Whenever `c` is reserved, any calls that leave its place alone may follow, and then every
sequence of attempts to bind it obeys the law. -/
def FillsOnce (Filled : Reservation → Value → β → β → Prop) (c : Const) : Prop :=
  ∀ (b b₀ b₁ : β) (c₀ : Const) (calls : List Call) (ts : List Ty),
    c.reserve b = .ok (c₀, b₀) → Backend.run b₀ calls = .ok b₁ →
    (∀ v, .fill (Backend.nextReservation b) v ∉ calls) →
    ∃ history, attempts (c₀, b₁) ts = .ok history ∧
      BindsOnce Filled c (Backend.nextReservation b) b₁ ts history

variable {c c₀ : Const} {r : Reservation} {b b' : β} {calls : List Call}
  {Awaits : Reservation → β → Prop} {Filled : Reservation → Value → β → β → Prop}

theorem Const.reserve_eq_ok :
    c.reserve b = .ok (c₀, b') ↔ c.reservation = none ∧ Backend.step b .reserve = .ok b' ∧
      c₀ = { c with reservation := some (Backend.nextReservation b) } := by
  unfold reserve isReserved
  cases c.reservation with
  | some r => exact ⟨nofun, nofun⟩
  | none =>
    cases Backend.step b .reserve with
    | error f => exact ⟨nofun, nofun⟩
    | ok m => simp [and_comm, eq_comm]

theorem KeepsPlaces.run (h : KeepsPlaces Awaits Filled) (hrun : Backend.run b calls = .ok b')
    (hcalls : ∀ v, .fill r v ∉ calls) (hb : Awaits r b) : Awaits r b' := by
  induction calls generalizing b with
  | nil => exact Backend.run_nil_eq_ok.mp hrun ▸ hb
  | cons c calls ih =>
    obtain ⟨m, hc, hrest⟩ := Backend.run_cons_eq_ok.mp hrun
    refine ih hrest (fun v hv => hcalls v (List.mem_cons_of_mem c hv)) (h.step hb hc ?_)
    rintro v rfl
    exact hcalls v List.mem_cons_self

theorem KeepsPlaces.fillsOnce (h : KeepsPlaces Awaits Filled) (c : Const) :
    FillsOnce Filled c := by
  intro b b₀ b₁ c₀ calls ts hreserve hrun hcalls
  obtain ⟨-, hstep, rfl⟩ := Const.reserve_eq_ok.mp hreserve
  have hopen : Awaits (Backend.nextReservation b) b₁ := h.run hrun hcalls (h.reserve hstep)
  exact exists_bindsOnce (h.fill hopen) ts

end KeepsPlaces

theorem Bytecode.Builder.keepsPlaces : KeepsPlaces Awaits Filled where
  reserve := awaits_reserve
  step := Awaits.step
  fill := Awaits.fill

theorem Source.Builder.keepsPlaces : KeepsPlaces Awaits Filled where
  reserve := awaits_reserve
  step := Awaits.step
  fill := Awaits.fill

/-- **A reserved constant is bound once, in both backends.** However often it is tried at whatever
types, a failed attempt changes nothing, the first success fills the place with the converted value,
and from then on the constant and the backend stay as they are. -/
theorem Const.bindings_fillOnce (c : Const) :
    FillsOnce Bytecode.Builder.Filled c ∧ FillsOnce Source.Builder.Filled c :=
  ⟨Bytecode.Builder.keepsPlaces.fillsOnce c, Source.Builder.keepsPlaces.fillsOnce c⟩

/-- Types at which the constant 1000 is tried. It is too great for the first one and fits the
second. -/
def triedTypes : List Ty := [.integer .uint8, .integer .int16, .string, .interface]

def triedOutcomes : List (Except CompileError Unit) :=
  [.error (.overflow "1000" "uint8"), .ok (), .error (.typeMismatch "string" "int16"), .ok ()]

/-- A place for the constant, and another constant after it. -/
def bytecodeWithPlace : Bytecode.Builder :=
  { id := 7, ops := #[.reserved, .push (.bool true)], pending := [0] }

def sourceWithSlot : Source.Builder :=
  { id := 7, registry := {}, slots := #[none], stack := [.primary "true", .slot 0] }

theorem Const.bindings_fillOnce_thousand :
    (∃ history,
      attempts ({ int 1000 with reservation := some ⟨7, 0⟩ }, bytecodeWithPlace) triedTypes =
        .ok history ∧
      history.map Attempt.outcome = triedOutcomes ∧
      BindsOnce Bytecode.Builder.Filled (int 1000) ⟨7, 0⟩ bytecodeWithPlace triedTypes history) ∧
    ∃ history,
      attempts ({ int 1000 with reservation := some ⟨7, 0⟩ }, sourceWithSlot) triedTypes =
        .ok history ∧
      history.map Attempt.outcome = triedOutcomes ∧
      BindsOnce Source.Builder.Filled (int 1000) ⟨7, 0⟩ sourceWithSlot triedTypes history := by
  obtain ⟨hbytecode, hsource⟩ := bindings_fillOnce (int 1000)
  constructor
  · obtain ⟨history, hrun, hlaw⟩ := hbytecode { id := 7 } _ bytecodeWithPlace _
      [.push (.bool true)] triedTypes rfl rfl (by simp)
    have houtcomes := congrArg (Except.map (List.map Attempt.outcome)) hrun
    exact ⟨history, hrun, Except.ok.inj houtcomes.symm, hlaw⟩
  · obtain ⟨history, hrun, hlaw⟩ := hsource { id := 7, registry := {} } _ sourceWithSlot _
      [.push (.bool true)] triedTypes rfl rfl (by simp)
    have houtcomes := congrArg (Except.map (List.map Attempt.outcome)) hrun
    exact ⟨history, hrun, Except.ok.inj houtcomes.symm, hlaw⟩

end Lowering
