import Lowering.Proofs.Bytecode.Patch

/-!
# The instruction stream along a run

Every call appends one instruction or none, so the calls that append are, in order, the origins of
the instructions: the instruction at `ip` comes from the call at `ip` in `emitted calls`.

Once appended, an instruction keeps its place. Its offset may be patched, and a reserved place
may be filled, which `Becomes` says of two instructions. `Step.becomes` is the statement for
one call and `run_becomes` for a run. That filling cannot hit anything but a reserved place rests on
the invariant `PendingExact`. A place is open from its reservation to its filling (`Awaits.step`),
and then it can be filled (`Awaits.fill`).
-/

namespace Lowering.Bytecode

open Op

/-- The calls that append an instruction, in order. -/
def emitted (calls : List Call) : List Call := calls.filter Call.emits

@[simp] theorem emitted_append (calls rest : List Call) :
    emitted (calls ++ rest) = emitted calls ++ emitted rest :=
  List.filter_append calls rest

theorem emitted_cons (c : Call) (calls : List Call) :
    emitted (c :: calls) = emitted [c] ++ emitted calls :=
  emitted_append [c] calls

/-- A call emits one instruction or none. -/
theorem emitted_singleton (c : Call) : emitted [c] = if c.emits then [c] else [] := by
  unfold emitted
  cases h : c.emits <;> simp [h]

namespace Builder

variable {b b' : Builder} {c : Call} {calls : List Call} {op : Op}

/-! ## Places -/

@[simp] theorem ops_append : (b.append op).ops = b.ops.push op := rfl

/-- What the instructions of calls have in common when they are appended: they are no reserved
places, and a jump leads to itself until its target is known. -/
structure Appends (c : Call) (op : Op) : Prop where
  emits : c.emits = true
  ne_reserved : op ≠ .reserved
  offset_zero : ∀ d, op.jumpOffset? = some d → d = 0

/-- The calls that emit an instruction, by how it is found. -/
theorem appends_of_op? (h : c.op? = some op) : Appends c op := by
  cases c <;> simp only [Call.op?, Option.some.injEq, reduceCtorEq] at h <;>
    (subst h; exact ⟨rfl, by simp, by simp [Op.jumpOffset?]⟩)

theorem appends_of_jump? {l : Label} (h : c.jump? = some (l, op)) : Appends c op := by
  cases c <;> simp only [Call.jump?, Option.some.injEq, Prod.mk.injEq, reduceCtorEq] at h <;>
    (obtain ⟨-, rfl⟩ := h; exact ⟨rfl, by simp, by simp [Op.jumpOffset?]⟩)

theorem appends_of_access? {v : Var} {mk : VarRef → Op} (h : c.access? = some (v, mk))
    (r : VarRef) : Appends c (mk r) := by
  cases c <;> simp only [Call.access?, Option.some.injEq, Prod.mk.injEq, reduceCtorEq] at h <;>
    (obtain ⟨-, rfl⟩ := h; exact ⟨rfl, by simp, by simp [Op.jumpOffset?]⟩)

theorem appends_of_comprehension? {d : Comprehension} (h : c.comprehension? = some (d, op)) :
    Appends c op := by
  cases c <;>
    simp only [Call.comprehension?, Option.some.injEq, Prod.mk.injEq, reduceCtorEq] at h <;>
    (obtain ⟨-, rfl⟩ := h; exact ⟨rfl, by simp, by simp [Op.jumpOffset?]⟩)

/-- The stream grows by what the call appends. -/
theorem Step.size_ops (h : Step b c b') :
    b'.ops.size = b.ops.size + (emitted [c]).length := by
  rw [emitted_singleton]
  cases h with
  | plain hc => simp [(appends_of_op? hc).emits]
  | jump hc => simp [(appends_of_jump? hc).emits]
  | @access c v mk r hc _ => simp [(appends_of_access? hc r).emits]
  | comprehension hc => simp [(appends_of_comprehension? hc).emits]
  | label _ | endFunc _ _ | defineGlobals _ _ | defineLocals _ _ | startStmt | endStmt
  | endPlainStmt | fill _ _ => simp [Call.emits]
  | forPhrase _ _ _ | filter _ | endFor _ | endComprehension _ | defineFunc _ _ _ | reserve =>
    simp [Call.emits]

theorem Step.id_eq (h : Step b c b') : b'.id = b.id := by
  cases h <;> rfl

/-! ## Reserved places -/

/-- The places that are waiting to be filled are the reserved instructions. -/
def PendingExact (b : Builder) : Prop := ∀ i, i ∈ b.pending ↔ b.ops[i]? = some .reserved

theorem bare_eq_reserved_iff : op.bare = .reserved ↔ op = .reserved := by
  cases op <;> simp [bare, withJumpOffset]

/-- Streams with the same bare instructions have the same reserved places. -/
theorem getElem?_eq_reserved_iff {ops ops' : Array Op} {i : Nat}
    (h : ops'.map bare = ops.map bare) :
    ops'[i]? = some .reserved ↔ ops[i]? = some .reserved := by
  have hi : (ops'[i]?).map bare = (ops[i]?).map bare := by
    rw [← Array.getElem?_map, ← Array.getElem?_map, h]
  constructor
  · intro h'
    rw [h', Option.map_some, eq_comm, Option.map_eq_some_iff] at hi
    obtain ⟨op, hop, hbare⟩ := hi
    rw [hop, bare_eq_reserved_iff.mp hbare]
  · intro h'
    rw [h', Option.map_some, Option.map_eq_some_iff] at hi
    obtain ⟨op, hop, hbare⟩ := hi
    rw [hop, bare_eq_reserved_iff.mp hbare]

/-- Appending anything but a reserved place keeps the invariant. -/
theorem PendingExact.append {m : Builder} (hb : PendingExact b) (hpending : m.pending = b.pending)
    (hops : m.ops = b.ops) (hop : op ≠ .reserved) : PendingExact (m.append op) := by
  intro i
  show i ∈ m.pending ↔ (m.ops.push op)[i]? = some .reserved
  rw [hpending, hb i, hops, Array.getElem?_push]
  by_cases hi : i = b.ops.size
  · simp [hi, hop]
  · rw [if_neg hi]

/-- Patching keeps the invariant. -/
theorem PendingExact.patch {m : Builder} (hb : PendingExact b) (hpending : m.pending = b.pending)
    (hops : m.ops.map bare = b.ops.map bare) : PendingExact m := by
  intro i
  rw [hpending, hb i, getElem?_eq_reserved_iff hops]

/-- Every call keeps the waiting places exact. -/
theorem Step.pendingExact (h : Step b c b') (hb : PendingExact b) : PendingExact b' := by
  cases h with
  | plain hc => exact hb.append rfl rfl (appends_of_op? hc).ne_reserved
  | jump hc => exact hb.append rfl rfl (appends_of_jump? hc).ne_reserved
  | access hc _ => exact hb.append rfl rfl (appends_of_access? hc _).ne_reserved
  | comprehension hc => exact hb.append rfl rfl (appends_of_comprehension? hc).ne_reserved
  | forPhrase _ _ _ | filter _ | endComprehension _ | defineFunc _ _ _ =>
    exact hb.append rfl rfl nofun
  | @endFor f loop _ =>
    have hlast : PendingExact (b.append (.endForPhrase ((loop.start : Int) - b.ops.size))) :=
      hb.append rfl rfl nofun
    exact hlast.patch rfl map_bare_closeLoop
  | endFunc _ _ => exact hb.patch rfl map_bare_patchJump
  | label _ | defineGlobals _ _ | defineLocals _ _ | startStmt | endStmt | endPlainStmt =>
    exact hb.patch rfl rfl
  | reserve =>
    intro i
    show i ∈ b.ops.size :: b.pending ↔ (b.ops.push .reserved)[i]? = some .reserved
    rw [List.mem_cons, hb i, Array.getElem?_push]
    by_cases hi : i = b.ops.size <;> simp [hi]
  | @fill r v hr hp =>
    intro i
    show i ∈ b.pending.filter (· ≠ r.position) ↔
      (b.ops.setIfInBounds r.position (.push v))[i]? = some .reserved
    rw [List.mem_filter, hb i, Array.getElem?_setIfInBounds]
    by_cases hi : r.position = i
    · simp [hi]
    · simp [hi, Ne.symm hi]

theorem pendingExact_fresh (id : Nat) : PendingExact { id := id } := by
  intro i
  simp

/-- By induction on the calls. -/
theorem run_pendingExact (h : Backend.run b calls = .ok b') (hb : PendingExact b) :
    PendingExact b' :=
  Backend.run_keeps (fun _ _ _ hc => (step_eq_ok_iff.mp hc).2.pendingExact) h hb

/-! ## What instructions become -/

/-- What an instruction may turn into: the same but for its offset, or a push in a reserved
place. -/
def Becomes (op op' : Op) : Prop := op'.bare = op.bare ∨ op = .reserved ∧ ∃ v, op' = .push v

theorem Becomes.refl (op : Op) : Becomes op op := .inl rfl

theorem bare_eq_push_iff {v : Value} : op.bare = .push v ↔ op = .push v := by
  cases op <;> simp [bare, withJumpOffset]

/-- An instruction may be filled and patched, in any order. -/
theorem Becomes.trans {op₁ op₂ op₃ : Op} (h₁ : Becomes op₁ op₂) (h₂ : Becomes op₂ op₃) :
    Becomes op₁ op₃ := by
  rcases h₁ with h₁ | ⟨rfl, v, rfl⟩
  · rcases h₂ with h₂ | ⟨rfl, hv⟩
    · exact .inl (h₂.trans h₁)
    · exact .inr ⟨bare_eq_reserved_iff.mp h₁.symm, hv⟩
  · rcases h₂ with h₂ | ⟨h₂, -⟩
    · exact .inr ⟨rfl, v, bare_eq_push_iff.mp h₂⟩
    · cases h₂

/-- Two streams agree up to offsets at every place. -/
theorem exists_becomes_of_map_bare {ops ops' : Array Op} {i : Nat}
    (h : ops'.map bare = ops.map bare) (hop : ops[i]? = some op) :
    ∃ op', ops'[i]? = some op' ∧ Becomes op op' := by
  have hi : (ops'[i]?).map bare = some op.bare := by
    rw [← Array.getElem?_map, h, Array.getElem?_map, hop, Option.map_some]
  obtain ⟨op', hop', hbare⟩ := Option.map_eq_some_iff.mp hi
  exact ⟨op', hop', .inl hbare⟩

theorem getElem?_push_of_some {ops : Array Op} {i : Nat} {new : Op} (hop : ops[i]? = some op) :
    (ops.push new)[i]? = some op := by
  have hi : i < ops.size := (Array.getElem?_eq_some_iff.mp hop).1
  rw [Array.getElem?_push, if_neg (Nat.ne_of_lt hi), hop]

/-- Every instruction stays where it is, up to its offset or a filling. -/
theorem Step.becomes (h : Step b c b') (hb : PendingExact b) {i : Nat}
    (hop : b.ops[i]? = some op) : ∃ op', b'.ops[i]? = some op' ∧ Becomes op op' := by
  cases h with
  | plain _ | jump _ | access _ _ | comprehension _ | forPhrase _ _ _ | filter _
  | endComprehension _ | defineFunc _ _ _ | reserve =>
    exact ⟨op, getElem?_push_of_some hop, .refl op⟩
  | endFor _ => exact exists_becomes_of_map_bare map_bare_closeLoop (getElem?_push_of_some hop)
  | endFunc _ _ => exact exists_becomes_of_map_bare map_bare_patchJump hop
  | label _ | defineGlobals _ _ | defineLocals _ _ | startStmt | endStmt | endPlainStmt =>
    exact ⟨op, hop, .refl op⟩
  | @fill r v hr hp =>
    show ∃ op', (b.ops.setIfInBounds r.position (.push v))[i]? = some op' ∧ Becomes op op'
    rw [Array.getElem?_setIfInBounds]
    by_cases hi : r.position = i
    · have hreserved : op = .reserved := by
        rw [hb r.position, hi, hop] at hp
        exact Option.some.inj hp
      have hlt : r.position < b.ops.size := by
        rw [hi]
        exact (Array.getElem?_eq_some_iff.mp hop).1
      rw [if_pos hi, if_pos hlt]
      exact ⟨.push v, rfl, .inr ⟨hreserved, v, rfl⟩⟩
    · rw [if_neg hi]
      exact ⟨op, hop, .refl op⟩

/-- By induction on the calls. No instruction is lost, and none changes into another but a reserved
one. -/
theorem run_becomes (h : Backend.run b calls = .ok b') (hb : PendingExact b) {i : Nat}
    (hop : b.ops[i]? = some op) : ∃ op', b'.ops[i]? = some op' ∧ Becomes op op' := by
  induction calls generalizing b op with
  | nil =>
    obtain rfl := Backend.run_nil_eq_ok.mp h
    exact ⟨op, hop, .refl op⟩
  | cons c calls ih =>
    obtain ⟨m, hc, hrest⟩ := Backend.run_cons_eq_ok.mp h
    have hstep := (step_eq_ok_iff.mp hc).2
    obtain ⟨op', hop', hfirst⟩ := hstep.becomes hb hop
    obtain ⟨op'', hop'', hlater⟩ := ih hrest (hstep.pendingExact hb) hop'
    exact ⟨op'', hop'', hfirst.trans hlater⟩

/-! ## Open places -/

/-- The place belongs to the builder and is reserved, and the builder takes more calls. -/
structure Awaits (r : Reservation) (b : Builder) : Prop where
  unresolved : b.resolved = false
  own : r.builder = b.id
  pending : r.position ∈ b.pending
  reserved : b.ops[r.position]? = some .reserved

/-- Filling turns the reserved place `r` into a push of `v` and changes nothing else. -/
structure Filled (r : Reservation) (v : Value) (b b' : Builder) : Prop where
  reserved : b.ops[r.position]? = some .reserved
  pushed : b'.ops[r.position]? = some (.push v)
  others : ∀ i, i ≠ r.position → b'.ops[i]? = b.ops[i]?
  pending : ∀ i, i ∈ b'.pending ↔ i ∈ b.pending ∧ i ≠ r.position
  rest : b' = { b with ops := b'.ops, pending := b'.pending }

variable {r : Reservation}

theorem awaits_reserve (h : b.step .reserve = .ok b') : Awaits b.nextReservation b' := by
  obtain ⟨hopen, hstep⟩ := step_eq_ok_iff.mp h
  cases hstep with
  | plain hc | jump hc | access hc _ | comprehension hc => cases hc
  | reserve => exact ⟨hopen, rfl, List.mem_cons_self, Array.getElem?_push_size⟩

theorem Step.resolved_eq (h : Step b c b') : b'.resolved = b.resolved := by
  cases h <;> rfl

/-- A place stays open until it is filled. -/
theorem Awaits.step (hb : Awaits r b) (h : b.step c = .ok b') (hc : ∀ v, c ≠ .fill r v) :
    Awaits r b' := by
  have hstep := (step_eq_ok_iff.mp h).2
  refine ⟨hstep.resolved_eq.trans hb.unresolved, hb.own.trans hstep.id_eq.symm, ?_, ?_⟩
  · cases hstep with
    | reserve => exact List.mem_cons_of_mem _ hb.pending
    | @fill q v hq _ =>
      have hne : q.position ≠ r.position := Call.position_ne hc (hq.trans hb.own.symm)
      exact List.mem_filter.mpr ⟨hb.pending, by simpa using Ne.symm hne⟩
    | _ => exact hb.pending
  · cases hstep with
    | plain _ | jump _ | access _ _ | comprehension _ | forPhrase _ _ _ | filter _
    | endComprehension _ | defineFunc _ _ _ | reserve => exact getElem?_push_of_some hb.reserved
    | endFor _ =>
      exact (getElem?_eq_reserved_iff map_bare_closeLoop).mpr (getElem?_push_of_some hb.reserved)
    | endFunc _ _ => exact (getElem?_eq_reserved_iff map_bare_patchJump).mpr hb.reserved
    | label _ | defineGlobals _ _ | defineLocals _ _ | startStmt | endStmt | endPlainStmt =>
      exact hb.reserved
    | @fill q v hq _ =>
      have hne : q.position ≠ r.position := Call.position_ne hc (hq.trans hb.own.symm)
      exact (Array.getElem?_setIfInBounds_ne hne).trans hb.reserved

/-- An open place can be filled with any value. -/
theorem Awaits.fill (hb : Awaits r b) (v : Value) :
    ∃ b', b.step (.fill r v) = .ok b' ∧ Filled r v b b' := by
  refine ⟨_, step_eq_ok_iff.mpr ⟨hb.unresolved, .fill hb.own hb.pending⟩, hb.reserved, ?_, ?_, ?_,
    rfl⟩
  · have hlt : r.position < b.ops.size := (Array.getElem?_eq_some_iff.mp hb.reserved).1
    exact Array.getElem?_setIfInBounds_self_of_lt hlt
  · intro i hi
    exact Array.getElem?_setIfInBounds_ne (Ne.symm hi)
  · intro i
    simp

end Builder

end Lowering.Bytecode
