import Lowering.Proofs.Bytecode.Stream

/-!
# Reserved constants

A front end reserves a place for a constant whose type is still open and fills the place when the
type is known, in any order and at any later time. The code is that of the calls which push every
constant at once: `inlined` puts the push where the place was reserved and drops the filling.

The two runs are compared state by state. `settled rest b` is the builder `b` with every reserved
place filled in advance, as the calls `rest` still to come will fill it. `Step.settled` says that a
call takes settled builders to settled builders, and `run_settled` that a run does.
-/

namespace Lowering

/-! ## Calls and bindings -/

/-- What a front end does with a backend: a call, or the binding of a constant to a type. -/
inductive Action
  | call (c : Call)
  | bind (c : Const) (t : Ty)

namespace Action

variable {β : Type} [Backend β]

/-- The state afterwards. A constant that does not fit the type leaves it as it is. -/
def perform (b : β) : Action → Except Fault β
  | call c => Backend.step b c
  | bind c t =>
    match c.bindIn t b with
    | .ok (_, b') => .ok b'
    | .error (.error _) => .ok b
    | .error (.fault f) => .error f

/-- The calls that are made: binding a constant fills its place if it has one. -/
def calls : Action → List Call
  | call c => [c]
  | bind c t =>
    match c.bind t with
    | .ok (_, some filling) => [.fill filling.reservation filling.value]
    | _ => []

theorem perform_eq_run (b : β) (a : Action) : a.perform b = Backend.run b a.calls := by
  cases a with
  | call c =>
    show Backend.step b c = Backend.step b c >>= pure
    rw [bind_pure]
  | bind c t =>
    simp only [perform, calls, Const.bindIn]
    cases c.bind t with
    | error e => rfl
    | ok bound =>
      obtain ⟨c', _ | filling⟩ := bound
      · rfl
      · show _ = Backend.step b (.fill filling.reservation filling.value) >>= pure
        rw [bind_pure]
        dsimp only
        cases Backend.step b (.fill filling.reservation filling.value) <;> rfl

theorem foldlM_perform (b : β) (actions : List Action) :
    actions.foldlM perform b = Backend.run b (actions.flatMap calls) := by
  induction actions generalizing b with
  | nil => rfl
  | cons a actions ih =>
    rw [List.foldlM_cons, perform_eq_run, List.flatMap_cons, Backend.run, Backend.run,
      List.foldlM_append]
    congr 1
    funext m
    exact ih m

end Action

namespace Bytecode

open Op

/-! ## Pushing at once -/

/-- The value that a place is filled with in a list of calls. -/
def filling? (r : Reservation) : List Call → Option Value
  | [] => none
  | .fill s v :: rest => if s = r then some v else filling? r rest
  | _ :: rest => filling? r rest

/-- The calls with each constant pushed where its place was reserved. `n` instructions have been
emitted before, so the next place of the builder `id` is `⟨id, n⟩`. -/
def inlined (id : Nat) : (n : Nat) → List Call → List Call
  | _, [] => []
  | n, .reserve :: rest => (filling? ⟨id, n⟩ rest).elim .reserve .push :: inlined id (n + 1) rest
  | n, .fill _ _ :: rest => inlined id n rest
  | n, c :: rest => c :: inlined id (n + (emitted [c]).length) rest

/-- Whether a call reserves a place or fills one. -/
def isDeferral : Call → Bool
  | .reserve | .fill _ _ => true
  | _ => false

theorem filling?_cons {r : Reservation} {c : Call} {rest : List Call} (hc : isDeferral c = false) :
    filling? r (c :: rest) = filling? r rest := by
  cases c with
  | reserve | fill r v => cases hc
  | _ => rfl

theorem inlined_cons {id n : Nat} {c : Call} {rest : List Call} (hc : isDeferral c = false) :
    inlined id n (c :: rest) = c :: inlined id (n + (emitted [c]).length) rest := by
  cases c with
  | reserve | fill r v => cases hc
  | _ => rfl

namespace Builder

variable {b b' : Builder} {c : Call} {id : Nat} {calls rest : List Call} {op : Op}

/-- Puts a push into a reserved place for which there is a value. -/
def settledOp (value? : Nat → Option Value) (i : Nat) : Op → Op
  | .reserved => (value? i).elim .reserved .push
  | op => op

/-- The builder under the name `id`, with every reserved place filled as the calls to come will fill
it. -/
def settled (id : Nat) (rest : List Call) (b : Builder) : Builder :=
  { b with
    id := id
    ops := b.ops.mapIdx (settledOp fun i => filling? ⟨b.id, i⟩ rest)
    pending := [] }

theorem settledOp_withJumpOffset (value? : Nat → Option Value) (i : Nat) (op : Op) (d : Int) :
    settledOp value? i (op.withJumpOffset d) = (settledOp value? i op).withJumpOffset d := by
  cases op with
  | reserved => cases h : value? i <;> simp [settledOp, withJumpOffset, h]
  | _ => rfl

theorem settledOp_of_ne (value? : Nat → Option Value) (i : Nat) (h : op ≠ .reserved) :
    settledOp value? i op = op := by
  cases op with
  | reserved => exact absurd rfl h
  | _ => rfl

@[simp] theorem size_ops_settled : (b.settled id rest).ops.size = b.ops.size := Array.size_mapIdx

theorem settled_append {m : Builder} (hop : op ≠ .reserved) :
    (m.append op).settled id rest = (m.settled id rest).append op := by
  simp only [settled, append, Array.mapIdx_push, settledOp_of_ne _ _ hop]

/-- A call that has nothing to do with reservations does the same to the settled builder. -/
theorem Step.settled (h : Step b c b') (hc : isDeferral c = false) (id : Nat) (rest : List Call) :
    Step (b.settled id rest) c (b'.settled id rest) := by
  cases h with
  | plain hop =>
    rw [settled_append (appends_of_op? hop).ne_reserved]
    exact .plain hop
  | jump hop =>
    rw [settled_append (appends_of_jump? hop).ne_reserved]
    have := Step.jump (b := b.settled id rest) hop
    rwa [size_ops_settled] at this
  | access hop hr =>
    rw [settled_append (appends_of_access? hop _).ne_reserved]
    exact .access hop hr
  | label hl =>
    have := Step.label (b := b.settled id rest) hl
    rwa [size_ops_settled] at this
  | @forPhrase f key val hasContext k v hk hv hf =>
    rw [settled_append (by nofun)]
    have : Step (b.settled id rest) (.forPhrase f key val hasContext) _ := .forPhrase hk hv hf
    rwa [size_ops_settled] at this
  | filter hf =>
    rw [settled_append (by nofun)]
    have := Step.filter (b := b.settled id rest) hf
    rwa [size_ops_settled] at this
  | @endFor f loop hf =>
    have hops : (closeLoop (b.ops.push (.endForPhrase ((loop.start : Int) - b.ops.size))) loop
          b.ops.size).mapIdx (settledOp fun i => filling? ⟨b.id, i⟩ rest) =
        closeLoop ((b.settled id rest).ops.push (.endForPhrase ((loop.start : Int) - b.ops.size)))
          loop b.ops.size := by
      rw [mapIdx_closeLoop (settledOp_withJumpOffset _), Array.mapIdx_push,
        settledOp_of_ne _ _ (by nofun)]
      rfl
    have := Step.endFor (b := b.settled id rest) hf
    rw [size_ops_settled, ← hops] at this
    exact this
  | comprehension hop =>
    rw [settled_append (appends_of_comprehension? hop).ne_reserved]
    exact .comprehension hop
  | endComprehension hd =>
    rw [settled_append (by nofun)]
    exact .endComprehension hd
  | defineFunc hfuncs hbodies hvars =>
    rw [settled_append (by nofun)]
    have := Step.defineFunc (b := b.settled id rest) hfuncs hbodies hvars
    rwa [size_ops_settled] at this
  | endFunc hbody hf =>
    have := Step.endFunc (b := b.settled id rest) hbody hf
    rw [size_ops_settled, settled, ← mapIdx_patchJump (settledOp_withJumpOffset _)] at this
    exact this
  | defineGlobals hnil hvars => exact .defineGlobals hnil hvars
  | defineLocals hcons hvars => exact .defineLocals hcons hvars
  | startStmt => exact .startStmt
  | @endStmt pos mark =>
    have : Step (b.settled id rest) (.endStmt (some pos) mark) _ := .endStmt
    rwa [size_ops_settled] at this
  | endPlainStmt => exact .endPlainStmt
  | reserve | fill _ _ => cases hc

/-- Reserving a place pushes into the settled builder what will fill the place. -/
theorem settled_reserve {v : Value} (hv : filling? ⟨b.id, b.ops.size⟩ rest = some v) :
    Builder.settled id rest (append { b with pending := b.ops.size :: b.pending } .reserved) =
      (b.settled id rest).append (.push v) := by
  simp only [settled, append, Array.mapIdx_push, settledOp, hv, Option.elim_some]

/-- Filling a place changes nothing in the settled builder. -/
theorem settled_fill {r : Reservation} {v : Value} (hb : PendingExact b) (hr : r.builder = b.id)
    (hp : r.position ∈ b.pending) :
    Builder.settled id rest { b with
        pending := b.pending.filter (· ≠ r.position)
        ops := b.ops.setIfInBounds r.position (.push v) } =
      b.settled id (.fill r v :: rest) := by
  have hreserved : b.ops[r.position]? = some .reserved := (hb r.position).mp hp
  have hlt : r.position < b.ops.size := (Array.getElem?_eq_some_iff.mp hreserved).1
  have hops : (b.ops.setIfInBounds r.position (.push v)).mapIdx
        (settledOp fun i => filling? ⟨b.id, i⟩ rest) =
      b.ops.mapIdx (settledOp fun i => filling? ⟨b.id, i⟩ (.fill r v :: rest)) := by
    apply Array.ext_getElem?
    intro i
    rw [Array.getElem?_mapIdx, Array.getElem?_mapIdx, Array.getElem?_setIfInBounds]
    by_cases hi : r.position = i
    · -- The place itself: a push now, and a reserved place with that value to come before.
      subst hi
      have hself : r = ⟨b.id, r.position⟩ := by rw [← hr]
      rw [if_pos rfl, if_pos hlt, hreserved, Option.map_some, Option.map_some,
        settledOp_of_ne _ _ (by nofun), settledOp, filling?, if_pos hself]
      rfl
    · have hother : r ≠ ⟨b.id, i⟩ := fun h => hi (congrArg Reservation.position h)
      rw [if_neg hi]
      congr 1
      funext op
      cases op <;> simp [settledOp, filling?, hother]
  unfold Builder.settled
  rw [hops]

/-- A place that waits and no longer waits after the run has been filled in between. -/
theorem filling?_of_run {i : Nat} (h : Backend.run b calls = .ok b') (hi : i ∈ b.pending)
    (hi' : i ∉ b'.pending) : ∃ v, filling? ⟨b.id, i⟩ calls = some v := by
  induction calls generalizing b with
  | nil => exact absurd (Backend.run_nil_eq_ok.mp h ▸ hi) hi'
  | cons c calls ih =>
    obtain ⟨m, hc, hrest⟩ := Backend.run_cons_eq_ok.mp h
    have hstep := (step_eq_ok_iff.mp hc).2
    have hid := hstep.id_eq
    by_cases hm : i ∈ m.pending
    · obtain ⟨v, hv⟩ := ih hrest hm
      rw [hid] at hv
      cases c with
      | fill r w =>
        rw [filling?]
        split
        · exact ⟨w, rfl⟩
        · exact ⟨v, hv⟩
      | _ => exact ⟨v, hv⟩
    · cases hstep with
      | @fill r v hr hp =>
        have hpos : r.position = i := Decidable.byContradiction fun hne =>
          hm (List.mem_filter.mpr ⟨hi, by simpa using Ne.symm hne⟩)
        refine ⟨v, ?_⟩
        rw [filling?, if_pos (by rw [← hr, ← hpos])]
      | reserve => exact absurd (List.mem_cons_of_mem _ hi) hm
      | _ => exact absurd hi hm

theorem filling?_of_reserve
    (h : Backend.run (append { b with pending := b.ops.size :: b.pending } .reserved) calls =
      .ok b')
    (hp : b'.pending = []) : ∃ v, filling? ⟨b.id, b.ops.size⟩ calls = some v := by
  have hwaits : b.ops.size ∉ b'.pending := by simp [hp]
  obtain ⟨v, hv⟩ := filling?_of_run h List.mem_cons_self hwaits
  exact ⟨v, hv⟩

/-- Without waiting places there is nothing to settle. -/
theorem settled_nil (hp : b.pending = []) :
    b.settled id [] = { b with id := id } := by
  have hops : b.ops.mapIdx (settledOp fun i => filling? ⟨b.id, i⟩ []) = b.ops := by
    apply Array.ext_getElem?
    intro i
    rw [Array.getElem?_mapIdx]
    cases b.ops[i]? with
    | none => rfl
    | some op => cases op <;> rfl
  unfold Builder.settled
  rw [hops, hp]

theorem settled_cons (hc : isDeferral c = false) :
    b.settled id (c :: rest) = b.settled id rest := by
  simp only [Builder.settled, filling?_cons hc]

/-- A run that leaves no place waiting, with every constant pushed at once, ends in the same
state. -/
theorem run_settled (h : Backend.run b calls = .ok b') (hb : PendingExact b)
    (hp : b'.pending = []) :
    Backend.run (b.settled id calls) (inlined b.id b.ops.size calls) =
      .ok { b' with id := id } := by
  induction calls generalizing b with
  | nil =>
    obtain rfl := Backend.run_nil_eq_ok.mp h
    exact Backend.run_nil_eq_ok.mpr (settled_nil hp)
  | cons c calls ih =>
    obtain ⟨m, hc, hrest⟩ := Backend.run_cons_eq_ok.mp h
    obtain ⟨hopen, hstep⟩ := step_eq_ok_iff.mp hc
    have hlater := ih hrest (hstep.pendingExact hb)
    rw [hstep.id_eq, hstep.size_ops] at hlater
    cases hd : isDeferral c with
    | false =>
      rw [inlined_cons hd, settled_cons hd]
      exact Backend.run_cons_eq_ok.mpr
        ⟨_, step_eq_ok_iff.mpr ⟨hopen, hstep.settled hd id calls⟩, hlater⟩
    | true =>
      cases c with
      | reserve =>
        obtain ⟨-, rfl⟩ := emit_eq_ok.mp hc
        obtain ⟨v, hv⟩ := filling?_of_reserve hrest hp
        rw [settled_reserve hv] at hlater
        rw [inlined, hv]
        exact Backend.run_cons_eq_ok.mpr ⟨_, step_eq_ok_iff.mpr ⟨hopen, .plain rfl⟩, hlater⟩
      | fill r v =>
        obtain ⟨-, hr, hwaits, rfl⟩ := fill_eq_ok.mp hc
        rw [settled_fill hb hr hwaits] at hlater
        exact hlater
      | _ => cases hd

/-- Nothing is deferred any more once all places have been filled. -/
theorem isDeferral_of_mem_inlined (h : Backend.run b calls = .ok b') (hp : b'.pending = []) :
    ∀ c ∈ inlined b.id b.ops.size calls, isDeferral c = false := by
  induction calls generalizing b with
  | nil => simp [inlined]
  | cons c calls ih =>
    obtain ⟨m, hc, hrest⟩ := Backend.run_cons_eq_ok.mp h
    have hstep := (step_eq_ok_iff.mp hc).2
    have hlater := ih hrest
    rw [hstep.id_eq, hstep.size_ops] at hlater
    cases hd : isDeferral c with
    | false =>
      rw [inlined_cons hd]
      exact List.forall_mem_cons.mpr ⟨hd, hlater⟩
    | true =>
      cases c with
      | reserve =>
        obtain ⟨-, rfl⟩ := emit_eq_ok.mp hc
        obtain ⟨v, hv⟩ := filling?_of_reserve hrest hp
        rw [inlined, hv]
        exact List.forall_mem_cons.mpr ⟨rfl, hlater⟩
      | fill r v => exact hlater
      | _ => cases hd

/-! ## Whole runs -/

theorem assemble_inlined {code : Code} (h : assemble id calls = .ok code) (id' : Nat) :
    assemble id' (inlined id 0 calls) = .ok code := by
  obtain ⟨b, hrun, hcomplete, ops, hops, hcode⟩ := assemble_eq_ok.mp h
  have hrun' : Backend.run ({ id := id' } : Builder) (inlined id 0 calls) =
      .ok { b with id := id' } :=
    run_settled hrun (pendingExact_fresh id) hcomplete.pending
  have hcomplete' : Complete { b with id := id' } :=
    ⟨hcomplete.resolved, hcomplete.pending, hcomplete.bodies, hcomplete.fors,
      hcomplete.comprehensions⟩
  exact assemble_eq_ok.mpr ⟨_, hrun', hcomplete', ops, hops, hcode⟩

/-- Finished code holds no reserved place. -/
theorem reserved_not_mem_of_assemble {code : Code} (h : assemble id calls = .ok code) :
    Op.reserved ∉ code.ops := by
  obtain ⟨b, hrun, hcomplete, ops, hops, rfl⟩ := assemble_eq_ok.mp h
  intro hmem
  obtain ⟨i, hi⟩ := List.getElem?_of_mem hmem
  have hb := run_pendingExact hrun (pendingExact_fresh id)
  have hreserved : b.ops[i]? = some .reserved := by
    rw [← getElem?_eq_reserved_iff (map_bare_patchLabels hops), ← Array.getElem?_toList]
    exact hi
  have hwaits : i ∈ b.pending := (hb i).mpr hreserved
  rw [hcomplete.pending] at hwaits
  cases hwaits

/-- The code of what a front end does with a fresh builder. -/
def lower (id : Nat) (actions : List Action) : Except Fault Code := do
  let b ← actions.foldlM Action.perform ({ id := id } : Builder)
  let (code, _) ← b.resolve
  return code

theorem lower_eq_assemble (id : Nat) (actions : List Action) :
    lower id actions = assemble id (actions.flatMap Action.calls) := by
  unfold lower assemble
  rw [Action.foldlM_perform]

/-- **Deferred constants leave no trace in the code.** A sequence of calls and bindings that ends
in finished code gives the same code as the calls in which every reserved constant is pushed at
once, on any builder. So neither the time nor the order of the fillings matters: two sequences that
push the same constants give the same code. -/
theorem lower_eq_assemble_inlined {actions : List Action} {code : Code}
    (h : lower id actions = .ok code) :
    (∀ id', assemble id' (inlined id 0 (actions.flatMap Action.calls)) = .ok code) ∧
      (∀ c ∈ inlined id 0 (actions.flatMap Action.calls), isDeferral c = false) ∧
      Op.reserved ∉ code.ops ∧
      ∀ id' actions' code', lower id' actions' = .ok code' →
        inlined id' 0 (actions'.flatMap Action.calls) =
          inlined id 0 (actions.flatMap Action.calls) →
        code' = code := by
  rw [lower_eq_assemble] at h
  have hinlined := assemble_inlined h
  refine ⟨hinlined, ?_, reserved_not_mem_of_assemble h, ?_⟩
  · obtain ⟨b, hrun, hcomplete, -⟩ := assemble_eq_ok.mp h
    exact isDeferral_of_mem_inlined hrun hcomplete.pending
  · intro id' actions' code' h' hsame
    rw [lower_eq_assemble] at h'
    have hinlined' := assemble_inlined h' id
    rw [hsame, hinlined id] at hinlined'
    exact (Except.ok.inj hinlined').symm

/-- Two constants behind a jump. The second is bound to a type before the first is filled. -/
def deferredSum : List Action :=
  [.call (.jump ⟨1, "done"⟩), .call .reserve, .call .reserve,
    .bind { value := .integer .int 5 (by decide), kind := .untypedInt, reservation := some ⟨7, 2⟩ }
      (.basic (.integer .int8)),
    .call (.builtinOp (.integer .int8) (.binary .add)),
    .call (.fill ⟨7, 1⟩ (.integer .int8 3 (by decide))), .call (.label ⟨1, "done"⟩)]

def sumCode : Code :=
  { ops :=
      [.jump 4, .push (.integer .int8 3 (by decide)), .push (.integer .int8 5 (by decide)),
        .builtinOp (.integer .int8) (.binary .add)]
    funcs := [], spans := [], numVars := 0 }

theorem lower_deferredSum :
    lower 7 deferredSum = .ok sumCode ∧
      assemble 8 (inlined 7 0 (deferredSum.flatMap Action.calls)) = .ok sumCode :=
  ⟨rfl, (lower_eq_assemble_inlined rfl).1 8⟩

end Builder

end Bytecode

end Lowering
