import Lowering.Proofs.Source.Script

/-!
# Slots of the source backend

A reserved constant is a slot of the state. Expressions and lines refer to slots by number, and no
call but `reserve` and `fill` changes one: `step_fixed` says so for every other call, together with
the parts of the state that no call changes at all. It does so because no other action changes them
(`fixed_of_perform`).

A slot is open from its reservation to its filling (`Awaits.step`), and then it can be filled
(`Awaits.fill`).
-/

namespace Lowering.Source

/-- The parts of the state that expressions and lines leave alone. -/
structure Fixed where
  id : Nat
  registry : Registry
  options : Options
  slots : Array (Option String)
  resolved : Bool

namespace Builder

def fixed (b : Builder) : Fixed := ⟨b.id, b.registry, b.options, b.slots, b.resolved⟩

variable {b b' : Builder} {c : Call}

/-- The lines of a block are not among what is fixed. -/
theorem fixed_setBlock (block : Block) : (b.setBlock block).fixed = b.fixed := by
  unfold setBlock
  cases b.bodies <;> rfl

/-! ## What actions leave alone -/

theorem fixed_discardAll {es : List Fragment} (h : b.discardAll es = .ok b') :
    b'.fixed = b.fixed :=
  (addsLines_discardAll h).unchanged fun _ => fixed_setBlock

theorem fixed_discardLeft {mark : Nat} {state : StmtMark} (h : b.discardLeft mark state = .ok b') :
    b'.fixed = b.fixed := by
  rw [discardLeft_eq] at h
  exact (fixed_discardAll h :)

theorem fixed_placeDirective (pos : Option SourcePos) (line : Nat) :
    (b.placeDirective pos line).fixed = b.fixed := by
  obtain ⟨k, hk⟩ := b.exists_placeDirective pos line
  rw [← hk, fixed_setBlock]

/-- Neither declarations nor literals are among what is fixed. -/
theorem fixed_addFunc (f : Func) (lines : List Line) (signature : String) :
    (b.addFunc f lines signature).fixed = b.fixed := by
  unfold addFunc
  split <;> rfl

/-- Only two actions change the slots, and none changes the rest. -/
theorem fixed_of_perform {registry : Registry} {γ : Type} {action : Action γ} {x : γ}
    (haction : Performs registry c action) (hreserve : c ≠ .reserve)
    (hfill : ∀ r v, c ≠ .fill r v) (h : action.perform b = .ok (x, b')) : b'.fixed = b.fixed := by
  cases action with
  | reserve => exact absurd haction hreserve
  | fill r v => exact absurd haction (hfill r v)
  | take f =>
    obtain ⟨rest, -, rfl⟩ := popExpr_eq_ok.mp h
    rfl
  | takeMany n =>
    obtain ⟨-, -, rfl⟩ := popMany_eq_ok.mp h
    rfl
  | push e =>
    obtain ⟨-, rfl⟩ := pushExpr_eq_ok.mp (Action.silent_eq_ok.mp h)
    rfl
  | line _ | discard _ | label _ | enter | leave | declare _ =>
    exact (addsLines_of_perform rfl h).unchanged fun _ => fixed_setBlock
  | spell t =>
    obtain ⟨parts, -, h⟩ := typeText_eq_ok.mp h
    obtain rfl := congrArg Prod.snd h
    rfl
  | qualify n =>
    obtain rfl := congrArg Prod.snd (Except.ok.inj h)
    unfold qualified
    split <;> rfl
  | name stem | openFor id | closeFor id | setCollectors collectors =>
    obtain rfl := congrArg Prod.snd (Except.ok.inj h)
    rfl
  | defineFunc f =>
    obtain ⟨-, -, rfl⟩ := defineFunc_eq_ok.mp (Action.silent_eq_ok.mp h)
    rfl
  | endFunc f =>
    obtain ⟨-, body, outer, parts, -, -, -, rfl⟩ := endFunc_eq_ok.mp (Action.silent_eq_ok.mp h)
    exact fixed_addFunc ..
  | startStmt =>
    obtain ⟨-, rfl⟩ := startStmt_eq_ok.mp (Action.silent_eq_ok.mp h)
    rfl
  | endStmt pos mark =>
    obtain ⟨-, state, r, -, hleft, rfl⟩ := endStmt_eq_ok.mp (Action.silent_eq_ok.mp h)
    exact (fixed_placeDirective pos state.line).trans (fixed_discardLeft hleft)

/-- Only reserving a place and filling one change the slots, and nothing changes the rest. -/
theorem step_fixed (hc : c ≠ .reserve) (hfill : ∀ r v, c ≠ .fill r v) (h : b.step c = .ok b') :
    b'.fixed = b.fixed :=
  Script.run_relates (R := fun b b' => b'.fixed = b.fixed) (fun _ => rfl)
    (fun h h' => h'.trans h) (fun haction h => fixed_of_perform haction hc hfill h)
    (performs_script b c) (step_eq_ok.mp h)

/-- Of the fixed state, a call changes the slots at most. -/
theorem fixed_of_step (h : b.step c = .ok b') :
    b'.fixed = { b.fixed with slots := b'.slots } := by
  by_cases hreserve : c = .reserve
  · subst hreserve
    obtain ⟨-, rfl⟩ := step_reserve_eq_ok.mp h
    rfl
  by_cases hfill : ∃ r v, c = .fill r v
  · obtain ⟨r, v, rfl⟩ := hfill
    obtain ⟨-, -, -, rfl⟩ := step_fill_eq_ok.mp h
    rfl
  have hfixed := step_fixed hreserve (fun r v hc => hfill ⟨r, v, hc⟩) h
  have hslots : b'.slots = b.slots := congrArg Fixed.slots hfixed
  rw [hfixed, hslots]
  rfl

/-- No call resolves the builder. -/
theorem resolved_of_step (h : b.step c = .ok b') :
    b'.resolved = b.resolved :=
  congrArg Fixed.resolved (fixed_of_step h)

/-- No call changes the options. -/
theorem options_of_step (h : b.step c = .ok b') : b'.options = b.options :=
  congrArg Fixed.options (fixed_of_step h)

theorem options_of_run {calls : List Call} (h : Backend.run b calls = .ok b') :
    b'.options = b.options :=
  Backend.run_keeps (P := (·.options = b.options))
    (fun _ _ _ hstep hoptions => (options_of_step hstep).trans hoptions) h rfl

/-! ## Open slots -/

/-- The slot belongs to the builder and has no text yet, and the builder takes more calls. -/
structure Awaits (r : Reservation) (b : Builder) : Prop where
  unresolved : b.resolved = false
  own : r.builder = b.id
  empty : b.slots[r.position]? = some none

/-- Filling puts the text of `v` into the empty slot `r` and changes nothing else. -/
structure Filled (r : Reservation) (v : Value) (b b' : Builder) : Prop where
  empty : b.slots[r.position]? = some none
  text : b'.slots[r.position]? = some (some (literalText v))
  others : ∀ i, i ≠ r.position → b'.slots[i]? = b.slots[i]?
  rest : b' = { b with slots := b'.slots }

variable {r : Reservation}

/-- A new slot is open. -/
theorem awaits_reserve (h : b.step .reserve = .ok b') : Awaits b.nextReservation b' := by
  obtain ⟨hopen, rfl⟩ := step_reserve_eq_ok.mp h
  exact ⟨hopen, rfl, Array.getElem?_push_size⟩

/-- A slot stays open until it is filled. -/
theorem Awaits.step (hb : Awaits r b) (h : b.step c = .ok b') (hc : ∀ v, c ≠ .fill r v) :
    Awaits r b' := by
  by_cases hreserve : c = .reserve
  · subst hreserve
    obtain ⟨hopen, rfl⟩ := step_reserve_eq_ok.mp h
    refine ⟨hopen, hb.own, ?_⟩
    have hlt : r.position < b.slots.size := (Array.getElem?_eq_some_iff.mp hb.empty).1
    rw [Array.getElem?_push, if_neg (Nat.ne_of_lt hlt), hb.empty]
  · by_cases hfill : ∃ q v, c = .fill q v
    · obtain ⟨q, v, rfl⟩ := hfill
      obtain ⟨hopen, hq, -, rfl⟩ := step_fill_eq_ok.mp h
      refine ⟨hopen, hb.own, ?_⟩
      have hne : q.position ≠ r.position := Call.position_ne hc (hq.trans hb.own.symm)
      rw [Array.getElem?_setIfInBounds_ne hne, hb.empty]
    · have hfixed : b'.fixed = b.fixed :=
        step_fixed hreserve (fun q v hq => hfill ⟨q, v, hq⟩) h
      obtain ⟨hid, -, -, hslots, hresolved⟩ := Fixed.mk.inj hfixed
      exact ⟨hresolved.trans hb.unresolved, hb.own.trans hid.symm, by rw [hslots, hb.empty]⟩

/-- An open slot can be filled with any value. -/
theorem Awaits.fill (hb : Awaits r b) (v : Value) :
    ∃ b', b.step (.fill r v) = .ok b' ∧ Filled r v b b' := by
  refine ⟨_, step_fill_eq_ok.mpr ⟨hb.unresolved, hb.own, hb.empty, rfl⟩, hb.empty, ?_, ?_, rfl⟩
  · have hlt : r.position < b.slots.size := (Array.getElem?_eq_some_iff.mp hb.empty).1
    exact Array.getElem?_setIfInBounds_self_of_lt hlt
  · intro i hi
    exact Array.getElem?_setIfInBounds_ne (Ne.symm hi)

end Builder

end Lowering.Source
