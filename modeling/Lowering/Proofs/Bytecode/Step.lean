import Lowering.Bytecode.Builder
import Lowering.Proofs.Run

/-!
# What one call does to the bytecode builder

`Step b c b'` says how a call takes the builder from one state to the next, with one constructor for
each way in which a call can change the state. `step_eq_ok_iff` ties the relation to
`Builder.step`, so a proof about runs splits over the constructors of `Step` and does not open
`Builder.step` again.

Most calls append one instruction and change nothing else. They are read off `Call.op?`, and
the three kinds of jumps off `Call.jump?`, the three ways to use a variable off `Call.access?`.
-/

namespace Lowering

namespace Call

open Bytecode (Op VarRef)

/-- The instruction of a call that appends it and does nothing else. -/
def op? : Call → Option Op
  | push v => some (.push v)
  | pop n => some (.pop n)
  | builtinOp k op => some (.builtinOp k op)
  | defaultCase => some .default
  | closure f => some (.closure f.id)
  | nativeClosure f => some (.nativeClosure f.id)
  | callClosure nexpr arity ellipsis => some (.callClosure nexpr arity ellipsis)
  | callNativeClosure nexpr arity ellipsis => some (.callNativeClosure nexpr arity ellipsis)
  | callFunc f nexpr => some (.callFunc f.id nexpr)
  | callVariadicFunc f nexpr arity => some (.callVariadicFunc f.id nexpr arity)
  | callNative address nexpr => some (.callNative address nexpr)
  | callVariadicNative address nexpr arity => some (.callVariadicNative address nexpr arity)
  | ret n => some (.ret n)
  | load i => some (.load i)
  | store i => some (.store i)
  | addressOp k op => some (.addressOp k op)
  | append t arity => some (.append t arity)
  | makeArray t arity => some (.makeArray t arity)
  | makeMap t arity => some (.makeMap t arity)
  | make t arity => some (.make t arity)
  | mapIndex => some .mapIndex
  | setMapIndex => some .setMapIndex
  | index i => some (.index i)
  | setIndex i => some (.setIndex i)
  | slice i j => some (.slice i j)
  | slice3 i j k => some (.slice3 i j k)
  | cast source target => some (.cast source target)
  | builtin t f => some (.builtin t f)
  | zero t => some (.zero t)
  | _ => none

/-- The label of a jump and the instruction, whose offset is open. -/
def jump? : Call → Option (Label × Op)
  | jump l => some (l, .jump 0)
  | jumpIf cond l => some (l, .jumpIf cond 0)
  | caseNe l arity => some (l, .caseNe 0 arity)
  | _ => none

/-- The variable that a call uses and the instruction for a given place of it. -/
def access? : Call → Option (Var × (VarRef → Op))
  | loadVar v => some (v, .loadVar)
  | storeVar v => some (v, .storeVar)
  | addrVar v => some (v, .addrVar)
  | _ => none

/-- The comprehension that a call starts and the instruction for it. -/
def comprehension? : Call → Option (Comprehension × Op)
  | listComprehension c => some (c, .listComprehension c.out)
  | mapComprehension c => some (c, .mapComprehension c.out)
  | _ => none

/-- Whether a call appends an instruction. Every call appends at most one. -/
def emits : Call → Bool
  | label _ | endFunc _ | defineVar _ | startStmt _ | endStmt _ _ | fill _ _ => false
  | _ => true

end Call

namespace Bytecode.Builder

/-- Puts an instruction at the end of the stream. -/
def append (b : Builder) (op : Op) : Builder := { b with ops := b.ops.push op }

/-- The stream after the end of a loop: every filter leads to the last instruction of the loop, the
start behind it. -/
def closeLoop (ops : Array Op) (loop : OpenFor) (last : Nat) : Array Op :=
  Op.patchJump (loop.filters.foldl (fun ops ip => Op.patchJump ops ip last) ops)
    loop.start (last + 1)

/-- The table entry of a body that ends at `stop`. -/
def entryOf (f : Func) (body : Body) (stop : Nat) : FuncEntry :=
  { id := f.id, name := f.name, entry := body.skip + 1, stop := stop,
    numIn := f.params.length, numOut := f.results.length, variadic := f.variadic,
    numVars := body.vars.length }

/-- `Step b c b'`: the call `c` takes an open builder from `b` to `b'`. -/
inductive Step (b : Builder) : Call → Builder → Prop
  | plain {c : Call} {op : Op} (hc : c.op? = some op) : Step b c (b.append op)
  | jump {c : Call} {l : Label} {op : Op} (hc : c.jump? = some (l, op)) :
    Step b c (append { b with fixups := b.fixups.push (b.ops.size, l) } op)
  | access {c : Call} {v : Var} {mk : VarRef → Op} {r : VarRef} (hc : c.access? = some (v, mk))
    (hr : b.varRef v = .ok r) : Step b c (b.append (mk r))
  | label {l : Label} (hl : b.labels.lookup l.id = none) :
    Step b (.label l) { b with labels := (l.id, b.ops.size) :: b.labels }
  | forPhrase {f : ForPhrase} {key val : Option Var} {hasContext : Bool} {k v : Option VarRef}
    (hk : b.optionalRef key = .ok k) (hv : b.optionalRef val = .ok v)
    (hf : b.fors.lookup f.id = none) :
    Step b (.forPhrase f key val hasContext)
      (append { b with fors := b.fors ++ [(f.id, { start := b.ops.size })] }
        (.forPhrase k v hasContext 0))
  | filter {f : ForPhrase} (hf : (b.fors.lookup f.id).isSome) :
    Step b (.filterForPhrase f)
      (append { b with fors := noteFilter f.id b.ops.size b.fors } (.filterForPhrase 0))
  | endFor {f : ForPhrase} {loop : OpenFor} (hf : b.fors.lookup f.id = some loop) :
    Step b (.endForPhrase f)
      { b with
        fors := b.fors.filter (·.1 ≠ f.id)
        ops := closeLoop (b.ops.push (.endForPhrase ((loop.start : Int) - b.ops.size))) loop
          b.ops.size }
  | comprehension {c : Call} {d : Comprehension} {op : Op} (hc : c.comprehension? = some (d, op)) :
    Step b c (append { b with comprehensions := d.id :: b.comprehensions } op)
  | endComprehension {d : Comprehension} {outer : List Nat}
    (hd : b.comprehensions = d.id :: outer) :
    Step b (.endComprehension d) (append { b with comprehensions := outer } .endComprehension)
  | defineFunc {f : Func} {vars : List Nat} (hfuncs : ∀ e ∈ b.funcs, e.id ≠ f.id)
    (hbodies : ∀ body ∈ b.bodies, body.func ≠ f.id) (hvars : define [] f.results = .ok vars) :
    Step b (.defineFunc f)
      (append { b with bodies := { func := f.id, skip := b.ops.size, vars := vars } :: b.bodies }
        (.jump 0))
  | endFunc {f : Func} {body : Body} {outer : List Body} (hb : b.bodies = body :: outer)
    (hf : body.func = f.id) :
    Step b (.endFunc f)
      { b with
        bodies := outer
        ops := Op.patchJump b.ops body.skip b.ops.size
        funcs := b.funcs.push (entryOf f body b.ops.size) }
  | defineGlobals {vs : List Var} {globals : List Nat} (hb : b.bodies = [])
    (hvars : define b.globals vs = .ok globals) :
    Step b (.defineVar vs) { b with globals := globals }
  | defineLocals {vs : List Var} {body : Body} {outer : List Body} {vars : List Nat}
    (hb : b.bodies = body :: outer) (hvars : define body.vars vs = .ok vars) :
    Step b (.defineVar vs) { b with bodies := { body with vars := vars } :: outer }
  | startStmt {pos : Option SourcePos} : Step b (.startStmt pos) b
  | endStmt {pos : SourcePos} {mark : Nat} :
    Step b (.endStmt (some pos) mark)
      { b with spans := b.spans.push { start := mark, stop := b.ops.size, pos := pos } }
  | endPlainStmt {mark : Nat} : Step b (.endStmt none mark) b
  | reserve : Step b .reserve (append { b with pending := b.ops.size :: b.pending } .reserved)
  | fill {r : Reservation} {v : Value} (hr : r.builder = b.id) (hp : r.position ∈ b.pending) :
    Step b (.fill r v)
      { b with
        pending := b.pending.filter (· ≠ r.position)
        ops := b.ops.setIfInBounds r.position (.push v) }

/-! ## The parts of a step -/

section Parts

variable {b b' : Builder}

/-- An open builder accepts every instruction. -/
theorem emit_eq_ok {op : Op} : b.emit op = .ok b' ↔ b.resolved = false ∧ b.append op = b' := by
  unfold emit append
  cases b.resolved <;> simp

theorem checkOpen_bind_eq_ok {what : Activity} {f : Unit → Except Fault Builder} :
    (b.checkOpen what >>= f) = .ok b' ↔ b.resolved = false ∧ f () = .ok b' := by
  unfold checkOpen
  cases b.resolved <;> simp [bind, Except.bind]

/-- A computation that refuses what meets a condition succeeds only without it. -/
theorem refusal_eq_ok {α : Type} {p : Prop} [Decidable p] {e : Fault}
    {f : α → Except Fault Builder} {x : Except Fault Builder} :
    (if p then throw e >>= f else x) = .ok b' ↔ ¬ p ∧ x = .ok b' := by
  by_cases hp : p
  · rw [if_pos hp]
    exact ⟨nofun, fun h => absurd hp h.1⟩
  · rw [if_neg hp]
    exact ⟨fun h => ⟨hp, h⟩, fun h => h.2⟩

theorem pure_eq_ok : (pure b : Except Fault Builder) = .ok b' ↔ b = b' := by
  simp [pure, Except.pure]

/-- A label is placed once. -/
theorem label_eq_ok {l : Label} :
    b.label l = .ok b' ↔ b.resolved = false ∧ b.labels.lookup l.id = none ∧
      { b with labels := (l.id, b.ops.size) :: b.labels } = b' := by
  unfold label
  simp only [checkOpen_bind_eq_ok, refusal_eq_ok, pure_eq_ok, Option.not_isSome_iff_eq_none]

/-- A loop may not be open already, and its variables are known. -/
theorem forPhrase_eq_ok {f : ForPhrase} {key val : Option Var} {hasContext : Bool} :
    b.forPhrase f key val hasContext = .ok b' ↔ b.resolved = false ∧
      ∃ k v, b.optionalRef key = .ok k ∧ b.optionalRef val = .ok v ∧ b.fors.lookup f.id = none ∧
        append { b with fors := b.fors ++ [(f.id, { start := b.ops.size })] }
          (.forPhrase k v hasContext 0) = b' := by
  unfold forPhrase
  simp only [bind_eq_ok, refusal_eq_ok, emit_eq_ok, Option.not_isSome_iff_eq_none]
  constructor
  · rintro ⟨k, hk, v, hv, hf, hb, h⟩
    exact ⟨hb, k, v, hk, hv, hf, h⟩
  · rintro ⟨hb, k, v, hk, hv, hf, h⟩
    exact ⟨k, hk, v, hv, hf, hb, h⟩

/-- A condition belongs to an open loop. -/
theorem filterForPhrase_eq_ok {f : ForPhrase} :
    b.filterForPhrase f = .ok b' ↔ b.resolved = false ∧ (b.fors.lookup f.id).isSome ∧
      append { b with fors := noteFilter f.id b.ops.size b.fors } (.filterForPhrase 0) = b' := by
  unfold filterForPhrase
  by_cases hf : (b.fors.lookup f.id).isSome
  · rw [if_pos hf, emit_eq_ok]
    simp only [hf, true_and]
  · rw [if_neg hf]
    simp [hf]

/-- A loop that ends is no longer open, and its jumps get their offsets. -/
theorem endForPhrase_eq_ok {f : ForPhrase} :
    b.endForPhrase f = .ok b' ↔ b.resolved = false ∧ ∃ loop, b.fors.lookup f.id = some loop ∧
      { b with
        fors := b.fors.filter (·.1 ≠ f.id)
        ops := closeLoop (b.ops.push (.endForPhrase ((loop.start : Int) - b.ops.size))) loop
          b.ops.size } = b' := by
  unfold endForPhrase
  cases b.fors.lookup f.id with
  | none => simp
  | some loop =>
    simp only [bind_eq_ok, emit_eq_ok, pure_eq_ok, Option.some.injEq, exists_eq_left']
    constructor
    · rintro ⟨_, ⟨hb, rfl⟩, h⟩
      exact ⟨hb, h⟩
    · rintro ⟨hb, h⟩
      exact ⟨_, ⟨hb, rfl⟩, h⟩

/-- Only the innermost comprehension can end. -/
theorem endComprehension_eq_ok {d : Comprehension} :
    b.endComprehension d = .ok b' ↔ b.resolved = false ∧ ∃ outer, b.comprehensions = d.id :: outer ∧
      append { b with comprehensions := outer } .endComprehension = b' := by
  unfold endComprehension
  cases b.comprehensions with
  | nil => simp
  | cons id outer =>
    by_cases hid : id = d.id
    · simp [hid, emit_eq_ok]
    · simp [hid]

/-- A function is defined once, and its named results count as variables. -/
theorem defineFunc_eq_ok {f : Func} :
    b.defineFunc f = .ok b' ↔ b.resolved = false ∧ ∃ vars, (∀ e ∈ b.funcs, e.id ≠ f.id) ∧
      (∀ body ∈ b.bodies, body.func ≠ f.id) ∧ define [] f.results = .ok vars ∧
      append { b with bodies := { func := f.id, skip := b.ops.size, vars := vars } :: b.bodies }
        (.jump 0) = b' := by
  unfold defineFunc
  simp only [bind_eq_ok, refusal_eq_ok, emit_eq_ok, pure_eq_ok]
  have hfresh : ¬ (b.funcs.any (·.id == f.id) || b.bodies.any (·.func == f.id)) = true ↔
      (∀ e ∈ b.funcs, e.id ≠ f.id) ∧ ∀ body ∈ b.bodies, body.func ≠ f.id := by
    simp only [Bool.or_eq_true, Array.any_eq_true', List.any_eq_true, beq_iff_eq, not_or,
      not_exists, not_and, ne_eq]
  rw [hfresh]
  constructor
  · rintro ⟨⟨hfuncs, hbodies⟩, _, ⟨hb, rfl⟩, vars, hvars, h⟩
    exact ⟨hb, vars, hfuncs, hbodies, hvars, h⟩
  · rintro ⟨hb, vars, hfuncs, hbodies, hvars, h⟩
    exact ⟨⟨hfuncs, hbodies⟩, _, ⟨hb, rfl⟩, vars, hvars, h⟩

/-- Only the innermost body can end. -/
theorem endFunc_eq_ok {f : Func} :
    b.endFunc f = .ok b' ↔ b.resolved = false ∧ ∃ body outer, b.bodies = body :: outer ∧
      body.func = f.id ∧
      { b with
        bodies := outer
        ops := Op.patchJump b.ops body.skip b.ops.size
        funcs := b.funcs.push (entryOf f body b.ops.size) } = b' := by
  unfold endFunc
  rw [checkOpen_bind_eq_ok]
  cases b.bodies with
  | nil => simp [throw, throwThe, MonadExceptOf.throw]
  | cons body outer =>
    simp only [refusal_eq_ok, pure_eq_ok, Decidable.not_not, List.cons.injEq]
    constructor
    · rintro ⟨hb, hf, h⟩
      exact ⟨hb, body, outer, ⟨rfl, rfl⟩, hf, h⟩
    · rintro ⟨hb, _, _, ⟨rfl, rfl⟩, hf, h⟩
      exact ⟨hb, hf, h⟩

/-- Variables belong to the innermost body, or are global. -/
theorem defineVar_eq_ok {vs : List Var} :
    b.defineVar vs = .ok b' ↔ b.resolved = false ∧
      ((∃ globals, b.bodies = [] ∧ define b.globals vs = .ok globals ∧
          { b with globals := globals } = b') ∨
        ∃ body outer vars, b.bodies = body :: outer ∧ define body.vars vs = .ok vars ∧
          { b with bodies := { body with vars := vars } :: outer } = b') := by
  unfold defineVar
  rw [checkOpen_bind_eq_ok]
  cases b.bodies with
  | nil =>
    simp only [bind_eq_ok, pure_eq_ok]
    constructor
    · rintro ⟨hb, globals, hvars, h⟩
      exact ⟨hb, .inl ⟨globals, trivial, hvars, h⟩⟩
    · rintro ⟨hb, ⟨globals, -, hvars, h⟩ | ⟨_, _, _, h, _⟩⟩
      · exact ⟨hb, globals, hvars, h⟩
      · cases h
  | cons body outer =>
    simp only [bind_eq_ok, pure_eq_ok]
    constructor
    · rintro ⟨hb, vars, hvars, h⟩
      exact ⟨hb, .inr ⟨body, outer, vars, rfl, hvars, h⟩⟩
    · rintro ⟨hb, ⟨_, h, _⟩ | ⟨_, _, vars, hcons, hvars, h⟩⟩
      · cases h
      · cases hcons
        exact ⟨hb, vars, hvars, h⟩

theorem endStmt_eq_ok {pos : Option SourcePos} {mark : Nat} :
    b.endStmt pos mark = .ok b' ↔ b.resolved = false ∧
      (match pos with
        | some pos =>
          { b with spans := b.spans.push { start := mark, stop := b.ops.size, pos := pos } }
        | none => b) = b' := by
  unfold endStmt
  rw [checkOpen_bind_eq_ok]
  cases pos <;> simp only [pure_eq_ok]

/-- A reserved instruction is filled once, by the builder that it belongs to. -/
theorem fill_eq_ok {r : Reservation} {v : Value} :
    b.fill r v = .ok b' ↔ b.resolved = false ∧ r.builder = b.id ∧ r.position ∈ b.pending ∧
      { b with
        pending := b.pending.filter (· ≠ r.position)
        ops := b.ops.setIfInBounds r.position (.push v) } = b' := by
  unfold fill
  simp only [checkOpen_bind_eq_ok, refusal_eq_ok, pure_eq_ok, Decidable.not_not]

end Parts

/-! ## Steps -/

variable {b b' : Builder} {c : Call}

/-- A call with an instruction of its own emits it. -/
theorem step_of_op? {op : Op} (hc : c.op? = some op) : b.step c = b.emit op := by
  cases c <;> simp only [Call.op?, Option.some.injEq, reduceCtorEq] at hc <;> (subst hc; rfl)

theorem step_of_jump? {l : Label} {op : Op} (hc : c.jump? = some (l, op)) :
    b.step c = b.emitJump l op := by
  cases c <;> simp only [Call.jump?, Option.some.injEq, Prod.mk.injEq, reduceCtorEq] at hc <;>
    (obtain ⟨rfl, rfl⟩ := hc; rfl)

theorem step_of_access? {v : Var} {mk : VarRef → Op} (hc : c.access? = some (v, mk)) :
    b.step c = (do b.emit (mk (← b.varRef v))) := by
  cases c <;> simp only [Call.access?, Option.some.injEq, Prod.mk.injEq, reduceCtorEq] at hc <;>
    (obtain ⟨rfl, rfl⟩ := hc; rfl)

theorem step_of_comprehension? {d : Comprehension} {op : Op}
    (hc : c.comprehension? = some (d, op)) :
    b.step c = emit { b with comprehensions := d.id :: b.comprehensions } op := by
  cases c <;>
    simp only [Call.comprehension?, Option.some.injEq, Prod.mk.injEq, reduceCtorEq] at hc <;>
    (obtain ⟨rfl, rfl⟩ := hc; rfl)

/-- A call is accepted exactly if the builder is open and `Step` relates the two states. -/
theorem step_eq_ok_iff : b.step c = .ok b' ↔ b.resolved = false ∧ Step b c b' := by
  constructor
  · intro h
    cases c with
    | label l =>
      obtain ⟨hb, hl, rfl⟩ := label_eq_ok.mp h
      exact ⟨hb, .label hl⟩
    | jump l | jumpIf cond l | caseNe l arity =>
      obtain ⟨hb, rfl⟩ := emit_eq_ok.mp h
      exact ⟨hb, .jump rfl⟩
    | forPhrase f key val hasContext =>
      obtain ⟨hb, k, v, hk, hv, hf, rfl⟩ := forPhrase_eq_ok.mp h
      exact ⟨hb, .forPhrase hk hv hf⟩
    | filterForPhrase f =>
      obtain ⟨hb, hf, rfl⟩ := filterForPhrase_eq_ok.mp h
      exact ⟨hb, .filter hf⟩
    | endForPhrase f =>
      obtain ⟨hb, loop, hf, rfl⟩ := endForPhrase_eq_ok.mp h
      exact ⟨hb, .endFor hf⟩
    | listComprehension d | mapComprehension d =>
      obtain ⟨hb, rfl⟩ := emit_eq_ok.mp h
      exact ⟨hb, .comprehension rfl⟩
    | endComprehension d =>
      obtain ⟨hb, outer, hd, rfl⟩ := endComprehension_eq_ok.mp h
      exact ⟨hb, .endComprehension hd⟩
    | defineFunc f =>
      obtain ⟨hb, vars, hfuncs, hbodies, hvars, rfl⟩ := defineFunc_eq_ok.mp h
      exact ⟨hb, .defineFunc hfuncs hbodies hvars⟩
    | endFunc f =>
      obtain ⟨hb, body, outer, hbody, hf, rfl⟩ := endFunc_eq_ok.mp h
      exact ⟨hb, .endFunc hbody hf⟩
    | defineVar vs =>
      obtain ⟨hb, ⟨globals, hnil, hvars, rfl⟩ | ⟨body, outer, vars, hcons, hvars, rfl⟩⟩ :=
        defineVar_eq_ok.mp h
      · exact ⟨hb, .defineGlobals hnil hvars⟩
      · exact ⟨hb, .defineLocals hcons hvars⟩
    | loadVar v | storeVar v | addrVar v =>
      obtain ⟨r, hr, h⟩ := bind_eq_ok.mp h
      obtain ⟨hb, rfl⟩ := emit_eq_ok.mp h
      exact ⟨hb, .access rfl hr⟩
    | startStmt pos =>
      obtain ⟨hb, h⟩ := checkOpen_bind_eq_ok.mp h
      obtain rfl := pure_eq_ok.mp h
      exact ⟨hb, .startStmt⟩
    | endStmt pos mark =>
      obtain ⟨hb, rfl⟩ := endStmt_eq_ok.mp h
      cases pos with
      | none => exact ⟨hb, .endPlainStmt⟩
      | some pos => exact ⟨hb, .endStmt⟩
    | reserve =>
      obtain ⟨hb, rfl⟩ := emit_eq_ok.mp h
      exact ⟨hb, .reserve⟩
    | fill r v =>
      obtain ⟨hb, hr, hp, rfl⟩ := fill_eq_ok.mp h
      exact ⟨hb, .fill hr hp⟩
    | _ =>
      obtain ⟨hb, rfl⟩ := emit_eq_ok.mp h
      exact ⟨hb, .plain rfl⟩
  · rintro ⟨hb, h⟩
    cases h with
    | plain hc => exact (step_of_op? hc).trans (emit_eq_ok.mpr ⟨hb, rfl⟩)
    | jump hc => exact (step_of_jump? hc).trans (emit_eq_ok.mpr ⟨hb, rfl⟩)
    | access hc hr =>
      exact (step_of_access? hc).trans (bind_eq_ok.mpr ⟨_, hr, emit_eq_ok.mpr ⟨hb, rfl⟩⟩)
    | label hl => exact label_eq_ok.mpr ⟨hb, hl, rfl⟩
    | forPhrase hk hv hf => exact forPhrase_eq_ok.mpr ⟨hb, _, _, hk, hv, hf, rfl⟩
    | filter hf => exact filterForPhrase_eq_ok.mpr ⟨hb, hf, rfl⟩
    | endFor hf => exact endForPhrase_eq_ok.mpr ⟨hb, _, hf, rfl⟩
    | comprehension hc => exact (step_of_comprehension? hc).trans (emit_eq_ok.mpr ⟨hb, rfl⟩)
    | endComprehension hd => exact endComprehension_eq_ok.mpr ⟨hb, _, hd, rfl⟩
    | defineFunc hfuncs hbodies hvars =>
      exact defineFunc_eq_ok.mpr ⟨hb, _, hfuncs, hbodies, hvars, rfl⟩
    | endFunc hbody hf => exact endFunc_eq_ok.mpr ⟨hb, _, _, hbody, hf, rfl⟩
    | defineGlobals hnil hvars =>
      exact defineVar_eq_ok.mpr ⟨hb, .inl ⟨_, hnil, hvars, rfl⟩⟩
    | defineLocals hcons hvars =>
      exact defineVar_eq_ok.mpr ⟨hb, .inr ⟨_, _, _, hcons, hvars, rfl⟩⟩
    | startStmt => exact checkOpen_bind_eq_ok.mpr ⟨hb, rfl⟩
    | endStmt | endPlainStmt =>
      rw [step, endStmt_eq_ok]
      exact ⟨hb, rfl⟩
    | reserve => exact emit_eq_ok.mpr ⟨hb, rfl⟩
    | fill hr hp => exact fill_eq_ok.mpr ⟨hb, hr, hp, rfl⟩

/-! ## Finishing -/

/-- A builder is complete if it is open and nothing that was begun is still under way. -/
structure Complete (b : Builder) : Prop where
  resolved : b.resolved = false
  pending : b.pending = []
  bodies : b.bodies = []
  fors : b.fors = []
  comprehensions : b.comprehensions = []

theorem checkComplete_eq_ok {u : Unit} : b.checkComplete = .ok u ↔ Complete b := by
  unfold checkComplete checkOpen
  constructor
  · intro h
    cases hres : b.resolved with
    | true => rw [hres] at h; exact nomatch h
    | false =>
      cases hpending : b.pending with
      | cons p rest => rw [hres, hpending] at h; exact nomatch h
      | nil =>
        cases hbodies : b.bodies with
        | cons body outer => rw [hres, hpending, hbodies] at h; exact nomatch h
        | nil =>
          cases hfors : b.fors with
          | cons loop rest => rw [hres, hpending, hbodies, hfors] at h; exact nomatch h
          | nil =>
            cases hcomp : b.comprehensions with
            | cons id outer => rw [hres, hpending, hbodies, hfors, hcomp] at h; exact nomatch h
            | nil => exact ⟨hres, hpending, hbodies, hfors, hcomp⟩
  · rintro ⟨hres, hpending, hbodies, hfors, hcomp⟩
    simp [hres, hpending, hbodies, hfors, hcomp]

/-- The code of a complete builder whose jumps to labels have been led to their places. -/
def codeOf (b : Builder) (ops : Array Op) : Code :=
  { ops := ops.toList, funcs := b.funcs.toList, spans := b.spans.toList,
    numVars := b.globals.length }

/-- Jumps to labels get their offsets at the end, when every label is known. -/
theorem resolve_eq_ok {code : Code} :
    b.resolve = .ok (code, b') ↔ Complete b ∧ ∃ ops,
      patchLabels b.labels b.ops b.fixups.toList = .ok ops ∧ b.codeOf ops = code ∧
        { b with ops := #[], funcs := #[], spans := #[], resolved := true } = b' := by
  unfold resolve
  simp only [bind_eq_ok, checkComplete_eq_ok]
  constructor
  · rintro ⟨-, hb, ops, hops, h⟩
    obtain ⟨hcode, hb'⟩ := Prod.mk.inj (Except.ok.inj h)
    exact ⟨hb, ops, hops, hcode, hb'⟩
  · rintro ⟨hb, ops, hops, hcode, hb'⟩
    exact ⟨(), hb, ops, hops, congrArg Except.ok (Prod.ext hcode hb')⟩

/-- The code of a whole sequence of calls on a fresh builder. -/
def assemble (id : Nat) (calls : List Call) : Except Fault Code := do
  let b ← Backend.run ({ id := id } : Builder) calls
  let (code, _) ← b.resolve
  return code

theorem assemble_eq_ok {id : Nat} {calls : List Call} {code : Code} :
    assemble id calls = .ok code ↔ ∃ b, Backend.run ({ id := id } : Builder) calls = .ok b ∧
      Complete b ∧ ∃ ops, patchLabels b.labels b.ops b.fixups.toList = .ok ops ∧
        b.codeOf ops = code := by
  unfold assemble
  simp only [bind_eq_ok]
  constructor
  · rintro ⟨b, hrun, ⟨_, b'⟩, hresolve, h⟩
    obtain ⟨hcomplete, ops, hops, rfl, -⟩ := resolve_eq_ok.mp hresolve
    exact ⟨b, hrun, hcomplete, ops, hops, Except.ok.inj h⟩
  · rintro ⟨b, hrun, hcomplete, ops, hops, rfl⟩
    exact ⟨b, hrun, _, resolve_eq_ok.mpr ⟨hcomplete, ops, hops, rfl, rfl⟩, rfl⟩

end Bytecode.Builder

end Lowering
