import Lowering.Call

/-!
# Runs of a backend

A run is the fold of a list of calls, so what holds of runs follows from what holds of single steps.
This module says so once, for every backend: `run_cons_eq_ok` and `run_append_eq_ok` take a run
apart, `run_keeps` lifts an invariant from steps to runs, and `run_traces` does the same for an
invariant that also speaks about the calls made so far.

A step is itself a sequence of computations that may fail. `Ensures P` says of one that it cannot
end in a result without `P`.
-/

namespace Lowering

/-- Two computations in a row succeed exactly if both do. -/
theorem bind_eq_ok {ε α β : Type} {first : Except ε α} {next : α → Except ε β} {out : β} :
    (first >>= next) = .ok out ↔ ∃ a, first = .ok a ∧ next a = .ok out := by
  cases first with
  | error e => exact ⟨nofun, fun ⟨_, h, _⟩ => nomatch h⟩
  | ok a => exact ⟨fun h => ⟨a, rfl, h⟩, fun ⟨_, ha, h⟩ => Except.ok.inj ha ▸ h⟩

/-- Reduces success to an equality that can be decided whatever the errors are. -/
theorem eq_ok_of_toOption {ε α : Type} {x : Except ε α} {a : α} (h : x.toOption = some a) :
    x = .ok a := by
  cases x with
  | error e => cases h
  | ok b => exact congrArg Except.ok (Option.some.inj h)

/-- The same of a part of the result. -/
theorem exists_ok_of_toOption {ε α β : Type} {x : Except ε α} {f : α → β} {out : β}
    (h : x.toOption.map f = some out) : ∃ a, x = .ok a ∧ f a = out := by
  cases x with
  | error e => cases h
  | ok a => exact ⟨a, rfl, Option.some.inj h⟩

/-! ## What computations ensure -/

/-- Whatever the computation results in has the property. -/
def Ensures {ε α : Type} (P : α → Prop) (outcome : Except ε α) : Prop :=
  ∀ a, outcome = .ok a → P a

section Ensures

variable {ε α β : Type} {P : α → Prop} {R : β → Prop} {first : Except ε α}
  {next : α → Except ε β} {a : α} {e : ε}

theorem ensures_ok (h : P a) : Ensures P (.ok a : Except ε α) := by
  rintro _ ⟨⟩
  exact h

theorem ensures_error : Ensures P (.error e : Except ε α) := nofun

/-- One computation after another. -/
theorem Ensures.bind (h : Ensures P first) (hnext : ∀ a, P a → Ensures R (next a)) :
    Ensures R (first >>= next) := by
  intro out hout
  obtain ⟨a, ha, hrest⟩ := bind_eq_ok.mp hout
  exact hnext a (h a ha) out hrest

/-- A computation whose result does not matter. -/
theorem ensures_bind (h : ∀ a, Ensures R (next a)) : Ensures R (first >>= next) := by
  intro out hout
  obtain ⟨a, _, hrest⟩ := bind_eq_ok.mp hout
  exact h a out hrest

/-- A computation that first refuses what meets a condition. -/
theorem ensures_refusal {p : Prop} [Decidable p] {rest : Except ε β} (h : Ensures R rest) :
    Ensures R (if p then throw e >>= next else rest) := by
  by_cases hp : p
  · rw [if_pos hp]
    exact ensures_error
  · rw [if_neg hp]
    exact h

theorem ensures_ite {p : Prop} [Decidable p] {yes no : Except ε α} (hyes : Ensures P yes)
    (hno : Ensures P no) : Ensures P (if p then yes else no) := by
  by_cases hp : p
  · rw [if_pos hp]
    exact hyes
  · rw [if_neg hp]
    exact hno

/-- What every round keeps, a loop keeps. -/
theorem ensures_foldlM {step : α → β → Except ε α} {xs : List β}
    (hstep : ∀ a x, P a → Ensures P (step a x)) (ha : P a) : Ensures P (xs.foldlM step a) := by
  induction xs generalizing a with
  | nil => exact ensures_ok ha
  | cons x xs ih => exact (hstep a x ha).bind fun a' ha' => ih ha'

end Ensures

/-! ## Calls -/

/-- Whether a call starts the body of the function with a given number. -/
def Call.startsFunc (i : Nat) : Call → Bool
  | defineFunc f => f.id == i
  | _ => false

/-- Whether a call ends the body of the function with a given number. -/
def Call.endsFunc (i : Nat) : Call → Bool
  | endFunc f => f.id == i
  | _ => false

/-- A call that fills another place of the same backend fills it at another position. -/
theorem Call.position_ne {q r : Reservation} {v : Value} (h : ∀ w, Call.fill q v ≠ .fill r w)
    (hbuilder : q.builder = r.builder) : q.position ≠ r.position := by
  obtain ⟨builder, position⟩ := q
  obtain ⟨builder', position'⟩ := r
  rintro rfl
  obtain rfl : builder = builder' := hbuilder
  exact h v rfl

/-! ## Runs -/

namespace Backend

variable {β : Type} [Backend β] {b b' : β} {c : Call} {calls rest : List Call}

@[simp] theorem run_nil_eq_ok : run b [] = .ok b' ↔ b = b' := by
  simp [run, pure, Except.pure]

theorem run_cons_eq_ok :
    run b (c :: calls) = .ok b' ↔ ∃ m, step b c = .ok m ∧ run m calls = .ok b' := by
  simp only [run, List.foldlM_cons, bind_eq_ok]

theorem run_singleton_eq_ok : run b [c] = .ok b' ↔ step b c = .ok b' := by
  simp [run_cons_eq_ok]

theorem run_append_eq_ok :
    run b (calls ++ rest) = .ok b' ↔ ∃ m, run b calls = .ok m ∧ run m rest = .ok b' := by
  simp only [run, List.foldlM_append, bind_eq_ok]

/-- What every step keeps, a run keeps. -/
theorem run_keeps {P : β → Prop} (hstep : ∀ b c b', step b c = .ok b' → P b → P b')
    (hrun : run b calls = .ok b') (hb : P b) : P b' := by
  induction calls generalizing b with
  | nil => exact run_nil_eq_ok.mp hrun ▸ hb
  | cons c calls ih =>
    obtain ⟨m, hm, hrest⟩ := run_cons_eq_ok.mp hrun
    exact ih hrest (hstep b c m hm hb)

/-- What holds before any call and is kept by every step, as the calls made so far grow by one,
holds of the calls of a whole run and the state that they lead to. -/
theorem run_traces {P : List Call → β → Prop} (hnil : P [] b)
    (hstep : ∀ calls m c m', P calls m → step m c = .ok m' → P (calls ++ [c]) m')
    (hrun : run b calls = .ok b') : P calls b' := by
  -- The calls already made are a parameter of the induction over the calls to come.
  have key : ∀ (rest done : List Call) (m : β), P done m → run m rest = .ok b' →
      P (done ++ rest) b' := by
    intro rest
    induction rest with
    | nil =>
      intro done m hP hm
      rw [List.append_nil]
      exact run_nil_eq_ok.mp hm ▸ hP
    | cons c rest ih =>
      intro done m hP hm
      obtain ⟨m', hc, hrest⟩ := run_cons_eq_ok.mp hm
      have := ih (done ++ [c]) m' (hstep done m c m' hP hc) hrest
      rwa [List.append_assoc, List.singleton_append] at this
  simpa using key calls [] b hnil hrun

end Backend

end Lowering
