import Lowering.Proofs.Source.Script

/-!
# The protocol of the source backend

Which calls the source backend takes does not depend on the texts that it has written. `Outline` is
the part of its state that matters: how many values wait, which slots are filled, and what is open.
`Outline.step` is the protocol. Most calls take some values and leave some (`effect`), if the types
and symbols in them can be written (`Outline.allows`); the others open something, close it, or are
about slots and statements.

Actions have an effect on outlines, too (`Outline.perform`). `Foretells` follows the actions of a
script: whatever the replies are, they lead to the outline that is foretold, or all to a fault. The
scripts of all calls do what the protocol says (`foretells_script`), so the backend follows the
protocol: from a state with an outline, a call leads to a state with the outline that the protocol
says, and fails if there is none (`meets_step`).
-/

namespace Lowering.Source

open Script (unsignedCount)

/-! ## The protocol -/

/-- Whether a type can be written in a package. -/
def spells (self : String) (t : Ty) : Bool := (spell self t).isOk

/-- A block without its lines: the variables in it and how deep it is. -/
structure Scope where
  vars : List Nat := []
  level : Nat := 1

/-- An open function body. -/
structure OpenBody where
  func : Func
  scope : Scope

/-- The state without texts. -/
structure Outline where
  id : Nat
  registry : Registry
  package : String
  /-- Number of values that wait for a consumer. -/
  depth : Nat
  /-- Whether each slot is filled. -/
  filled : List Bool
  /-- The block outside any function. -/
  top : Scope
  bodies : List OpenBody
  fors : List (Nat × Nat)
  /-- Open comprehensions and whether each is that of a map. -/
  collectors : List (Nat × Bool)
  /-- Number of values at the start of each statement. -/
  stmts : List Nat

/-- How many values a call takes and how many it leaves. -/
def effect : Call → Nat × Nat
  | .push _ | .closure _ | .nativeClosure _ | .load _ | .loadVar _ | .addrVar _ | .zero _ => (0, 1)
  | .pop n => (n, 0)
  | .builtinOp _ (.unary _) | .addressOp _ .value | .cast _ _ => (1, 1)
  | .builtinOp _ (.binary _) | .mapIndex => (2, 1)
  | .jumpIf _ _ | .defaultCase | .filterForPhrase _ | .store _ | .storeVar _ => (1, 0)
  -- The tag stays.
  | .caseNe _ arity => (arity + 1, 1)
  | .callClosure n _ _ | .callNativeClosure n _ _ => (n + 1, 1)
  | .callFunc _ n | .callVariadicFunc _ n _ | .callNative _ n | .callVariadicNative _ n _ => (n, 1)
  | .ret n => (if n = returnNamedResults ∨ n = 0 then 0 else unsignedCount n, 0)
  | .addressOp _ .inc | .addressOp _ .dec => (1, 0)
  | .addressOp _ _ => (2, 0)
  | .append _ arity => (if arity = arityEllipsis then 2 else unsignedCount arity, 1)
  | .makeArray _ n | .make _ n => (n, 1)
  | .makeMap _ n => (n * 2, 1)
  | .setMapIndex => (3, 0)
  | .index i => (if i < 0 then 2 else 1, 1)
  | .setIndex i => (if i < 0 then 3 else 2, 0)
  | .slice i j => ([i, j].count boundFromStack + 1, 1)
  | .slice3 i j k => ([i, j, k].count boundFromStack + 1, 1)
  | .builtin _ f => (f.arity, if f.producesValue then 1 else 0)
  | _ => (0, 0)

namespace Outline

/-- Takes values and leaves others. -/
def exchange (o : Outline) (takes leaves : Nat) : Option Outline :=
  if takes ≤ o.depth then some { o with depth := o.depth - takes + leaves } else none

/-- The innermost block. -/
def scope (o : Outline) : Scope :=
  match o.bodies with
  | body :: _ => body.scope
  | [] => o.top

def setScope (o : Outline) (scope : Scope) : Outline :=
  match o.bodies with
  | body :: outer => { o with bodies := { body with scope := scope } :: outer }
  | [] => { o with top := scope }

/-- Goes one level deeper. -/
def enter (o : Outline) : Outline := o.setScope { o.scope with level := o.scope.level + 1 }

/-- Goes back one level. -/
def leave (o : Outline) : Option Outline :=
  match o.scope.level with
  | 0 => none
  | level + 1 => some (o.setScope { o.scope with level := level })

/-- Whether a type can be written. -/
def require (o : Outline) (t : Ty) : Option Outline := if spells o.package t then some o else none

/-- The number of parameters of the innermost function. -/
def numParams (o : Outline) : Nat :=
  match o.bodies with
  | body :: _ => body.func.params.length
  | [] => 0

/-- Whether what is named in a call is there. -/
def allows (o : Outline) : Call → Bool
  | .makeArray t _ | .makeMap t _ | .make t _ | .cast _ t => spells o.package t
  | .zero t => (if t.isNamed then none else zeroText? t.kind).isSome || spells o.package t
  | .callNative address _ => (o.registry.native .func address).isOk
  | .callVariadicNative address _ _ => (o.registry.native .variadicFunc address).isOk
  | .load i | .store i => -o.numParams ≤ i ∧ i < 0
  | .filterForPhrase f => (o.fors.lookup f.id).isSome
  | _ => true

/-- Declares a variable, which the block must not have. -/
def declare (o : Outline) (v : Var) : Option Outline :=
  if o.scope.vars.contains v.id then none
  else some (o.setScope { o.scope with vars := v.id :: o.scope.vars })

def defineVar (o : Outline) (v : Var) : Option Outline := (o.declare v).bind fun o => o.require v.ty

/-- What a loop leaves behind is one element of the innermost comprehension. -/
def collect (o : Outline) : Option Outline :=
  match o.collectors with
  | [] => none
  | (_, isMap) :: _ => o.exchange (if isMap then 2 else 1) 0

/-- Starts a loop, unless it is open, and notes how many values wait. -/
def startFor (o : Outline) (f : ForPhrase) : Option Outline :=
  if (o.fors.lookup f.id).isSome then none
  else some (enter { o with fors := o.fors ++ [(f.id, o.depth)] })

def endFor (o : Outline) (f : ForPhrase) : Option Outline :=
  match o.fors.lookup f.id with
  | none => none
  | some depth =>
    let o := { o with fors := o.fors.filter (·.1 ≠ f.id) }
    (if depth < o.depth then o.collect else some o).bind leave

def startComprehension (o : Outline) (c : Comprehension) (isMap : Bool) : Option Outline :=
  (o.require c.out).map fun o => { o with collectors := (c.id, isMap) :: o.collectors }

def endComprehension (o : Outline) (c : Comprehension) : Option Outline :=
  match o.collectors with
  | (id, _) :: outer =>
    if id = c.id then exchange { o with collectors := outer } 0 1 else none
  | [] => none

/-- Opens a body, unless one of the function is open. -/
def defineFunc (o : Outline) (f : Func) : Option Outline :=
  if o.bodies.any (·.func.id == f.id) then none
  else
    let vars := if f.hasUnnamedResults then [] else f.results.map (·.id)
    some { o with bodies := ⟨f, { vars := vars }⟩ :: o.bodies }

/-- Closes the innermost body. -/
def endFunc (o : Outline) (f : Func) : Option Outline :=
  match o.bodies with
  | body :: outer =>
    if body.func.id ≠ f.id then none
    else if (Builder.spellSignature o.package f).isOk then some { o with bodies := outer }
    else none
  | [] => none

def startStmt (o : Outline) : Outline := { o with stmts := o.stmts ++ [o.depth] }

/-- What is left of the statement at `mark` is discarded. -/
def endStmt (o : Outline) (mark : Nat) : Option Outline :=
  match o.stmts[mark]? with
  | none => none
  | some depth => exchange { o with stmts := o.stmts.take mark } (o.depth - depth) 0

def reserve (o : Outline) : Outline :=
  { o with filled := o.filled ++ [false], depth := o.depth + 1 }

def fill (o : Outline) (r : Reservation) : Option Outline :=
  if r.builder ≠ o.id then none
  else
    match o.filled[r.position]? with
    | some false => some { o with filled := o.filled.set r.position true }
    | _ => none

/-- A call that only takes values and leaves others. -/
def trade (o : Outline) (c : Call) : Option Outline :=
  if o.allows c then o.exchange (effect c).1 (effect c).2 else none

/-- One call. -/
def step (o : Outline) : Call → Option Outline
  | .forPhrase f _ _ _ => (o.exchange 1 0).bind fun o => o.startFor f
  | .endForPhrase f => o.endFor f
  | .listComprehension c => o.startComprehension c false
  | .mapComprehension c => o.startComprehension c true
  | .endComprehension c => o.endComprehension c
  | .defineFunc f => o.defineFunc f
  | .endFunc f => o.endFunc f
  | .defineVar vs => vs.foldlM defineVar o
  | .startStmt _ => some o.startStmt
  | .endStmt _ mark => o.endStmt mark
  | .reserve => some o.reserve
  | .fill r _ => o.fill r
  | c => o.trade c

/-- Everything is closed, and every slot is filled. -/
structure Finished (o : Outline) : Prop where
  filled : ∀ s ∈ o.filled, s = true
  bodies : o.bodies = []
  fors : o.fors = []
  collectors : o.collectors = []

/-- What an action does to the outline of the state. -/
def perform {β : Type} (o : Outline) : Action β → Option Outline
  | .take _ => o.exchange 1 0
  | .takeMany n => o.exchange n 0
  | .push _ => o.exchange 0 1
  | .line _ | .discard _ | .label _ | .qualify _ | .name _ => some o
  | .enter => some o.enter
  | .leave => o.leave
  | .spell t => o.require t
  | .declare v => o.declare v
  | .openFor id => some { o with fors := o.fors ++ [(id, o.depth)] }
  | .closeFor id => some { o with fors := o.fors.filter (·.1 ≠ id) }
  | .setCollectors cs => some { o with collectors := cs.map fun c => (c.id, c.isMap) }
  | .defineFunc f => o.defineFunc f
  | .endFunc f => o.endFunc f
  | .startStmt => some o.startStmt
  | .endStmt _ mark => o.endStmt mark
  | .reserve => some o.reserve
  | .fill r _ => o.fill r

variable {o o' : Outline} {m n k : Nat}

/-- Taking `m` values and leaving `k` needs `m` of them. -/
theorem exchange_eq_some :
    o.exchange m k = some o' ↔ m ≤ o.depth ∧ { o with depth := o.depth - m + k } = o' := by
  rw [exchange, Option.ite_none_right_eq_some, Option.some.injEq]

/-- Taking values twice is taking them all. -/
theorem exchange_bind (o : Outline) (m n k : Nat) :
    ((o.exchange m 0).bind fun o => o.exchange n k) = o.exchange (m + n) k := by
  unfold exchange
  by_cases hm : m ≤ o.depth
  · rw [if_pos hm, Option.bind_some]
    by_cases hn : m + n ≤ o.depth
    · rw [if_pos hn, if_pos (show n ≤ o.depth - m + 0 by omega)]
      simp only [Option.some.injEq, Outline.mk.injEq, true_and, and_true]
      omega
    · rw [if_neg hn, if_neg (show ¬ n ≤ o.depth - m + 0 by omega)]
  · rw [if_neg hm, if_neg (by omega)]
    rfl

theorem scope_setScope (o : Outline) (scope : Scope) : (o.setScope scope).scope = scope := by
  unfold setScope Outline.scope
  cases o.bodies <;> rfl

/-- Of two changes of the scope only the last one counts. -/
theorem setScope_setScope (o : Outline) (scope scope' : Scope) :
    (o.setScope scope).setScope scope' = o.setScope scope' := by
  unfold setScope
  cases o.bodies <;> rfl

theorem setScope_scope (o : Outline) : o.setScope o.scope = o := by
  obtain ⟨_, _, _, _, _, _, bodies, _, _, _⟩ := o
  cases bodies <;> rfl

/-- Going deeper and back again. -/
theorem leave_enter (o : Outline) : o.enter.leave = some o := by
  have hscope : o.enter.scope = { o.scope with level := o.scope.level + 1 } := scope_setScope ..
  have hback : o.enter.setScope o.scope = o := by
    rw [enter, setScope_setScope, setScope_scope]
  rw [leave, hscope]
  exact congrArg some hback

end Outline

/-! ## Outcomes -/

/-- The computation ends as planned: with a result as in the plan, or with none. -/
def Meets {ε α β : Type} (R : α → β → Prop) : Except ε α → Option β → Prop
  | .ok a, some b => R a b
  | .error _, none => True
  | _, _ => False

section Meets

variable {ε α β γ δ : Type} {R : α → β → Prop} {S : γ → δ → Prop} {x : Except ε α} {y : Option β}
  {next : α → Except ε γ} {next' : β → Option δ}

/-- Outcomes that meet can be continued by steps that do. -/
theorem Meets.bind (h : Meets R x y) (hnext : ∀ a b, R a b → Meets S (next a) (next' b)) :
    Meets S (x >>= next) (y.bind next') := by
  cases x with
  | error e =>
    cases y with
    | none => trivial
    | some b => exact h.elim
  | ok a =>
    cases y with
    | none => exact h.elim
    | some b => exact hnext a b h

/-- A first computation that the plan only asks to succeed. -/
theorem meets_bind {first : Except ε α} {next : α → Except ε γ} {z : Option δ}
    (hnext : ∀ a, Meets S (next a) z) :
    Meets S (first >>= next) (if first.isOk = true then z else none) := by
  cases first with
  | error e => trivial
  | ok a => exact hnext a

/-- A test is made by both sides, if they agree on when it holds. -/
theorem meets_ite {p q : Prop} [Decidable p] [Decidable q] (hpq : p ↔ q) {x' : Except ε α}
    {y' : Option β} (hyes : Meets R x y) (hno : Meets R x' y') :
    Meets R (if p then x else x') (if q then y else y') := by
  by_cases hp : p
  · rw [if_pos hp, if_pos (hpq.mp hp)]
    exact hyes
  · rw [if_neg hp, if_neg (hp ∘ hpq.mpr)]
    exact hno

/-- By induction on the list, from a relation that every step keeps. -/
theorem meets_foldlM {ι : Type} {step : α → ι → Except ε α} {step' : β → ι → Option β}
    (hstep : ∀ a b i, R a b → Meets R (step a i) (step' b i)) (is : List ι) {a : α} {b : β}
    (h : R a b) : Meets R (is.foldlM step a) (is.foldlM step' b) := by
  induction is generalizing a b with
  | nil => exact h
  | cons i is ih => exact (hstep a b i h).bind fun _ _ hnext => ih hnext

/-- What the outline allows succeeds. -/
theorem Meets.exists_ok {b : β} (h : Meets R x (some b)) : ∃ a, x = .ok a ∧ R a b := by
  cases x with
  | error e => exact h.elim
  | ok a => exact ⟨a, rfl, h⟩

/-- What the outline refuses fails. -/
theorem Meets.exists_error (h : Meets R x none) : ∃ e, x = .error e := by
  cases x with
  | error e => exact ⟨e, rfl⟩
  | ok a => exact h.elim

theorem Meets.exists_ok_iff (h : Meets R x y) {P : β → Prop} {Q : α → Prop}
    (hPQ : ∀ a b, x = .ok a → R a b → (Q a ↔ P b)) :
    (∃ a, x = .ok a ∧ Q a) ↔ ∃ b, y = some b ∧ P b := by
  cases x with
  | error e =>
    cases y with
    | none => simp
    | some b => exact h.elim
  | ok a =>
    cases y with
    | none => exact h.elim
    | some b => simpa using hPQ a b rfl h

end Meets

/-! ## Actions -/

namespace Builder

def outline (b : Builder) : Outline where
  id := b.id
  registry := b.registry
  package := b.options.package
  depth := b.stack.length
  filled := b.slots.toList.map Option.isSome
  top := ⟨b.top.vars, b.top.depth⟩
  bodies := b.bodies.map fun body => ⟨body.func, body.block.vars, body.block.depth⟩
  fors := b.fors
  collectors := b.collectors.map fun c => (c.id, c.isMap)
  stmts := b.stmts.toList.map StmtMark.stackDepth

/-- The builder takes more calls and has the outline. -/
structure At (b : Builder) (o : Outline) : Prop where
  unresolved : b.resolved = false
  outline : b.outline = o

/-- The same of a result with a builder. -/
abbrev AtRest {α : Type} (r : α × Builder) (o : Outline) : Prop := At r.2 o

variable {b : Builder} {o : Outline}

/-- The scope of the outline is that of the innermost block. -/
theorem scope_outline (b : Builder) : b.outline.scope = ⟨b.block.vars, b.block.depth⟩ := by
  unfold Outline.scope outline block
  cases b.bodies <;> rfl

/-- A changed block shows in the outline as a changed scope, and its lines do not show at all. -/
theorem outline_setBlock (b : Builder) (block : Block) :
    (b.setBlock block).outline = b.outline.setScope ⟨block.vars, block.depth⟩ := by
  unfold setBlock Outline.setScope outline
  cases b.bodies <;> rfl

theorem resolved_setBlock (b : Builder) (block : Block) :
    (b.setBlock block).resolved = b.resolved := by
  unfold setBlock
  cases b.bodies <;> rfl

/-- A builder stays open when its block changes. -/
theorem at_setBlock (hopen : b.resolved = false) (block : Block) :
    At (b.setBlock block) (b.outline.setScope ⟨block.vars, block.depth⟩) :=
  ⟨(resolved_setBlock b block).trans hopen, outline_setBlock b block⟩

/-- Lines do not show in the outline. -/
theorem At.setLines (hb : At b o) (lines : Array Line) :
    At (b.setBlock { b.block with lines := lines }) o := by
  obtain ⟨hopen, rfl⟩ := hb
  have hat := at_setBlock hopen { b.block with lines := lines }
  rwa [← scope_outline, Outline.setScope_scope] at hat

theorem checkOpen_bind (hb : b.resolved = false) (what : Activity)
    (next : Unit → Except Fault Builder) : (b.checkOpen what >>= next) = next () := by
  rw [checkOpen, hb]
  rfl

/-- Lines are always accepted and leave no trace in the outline. -/
theorem meets_line (hb : At b o) (pieces : List Piece) : Meets At (b.line pieces) (some o) := by
  rw [line, checkOpen_bind hb.unresolved]
  exact hb.setLines _

/-- Discarded values are written as lines. -/
theorem meets_discardAll (hb : At b o) (es : List Fragment) :
    Meets At (b.discardAll es) (some o) := by
  induction es generalizing b o with
  | nil => exact hb
  | cons e es ih =>
    have hdiscard : Meets At (b.discard e) (some o) := by
      unfold discard
      split
      · exact meets_line hb _
      · exact meets_line hb _
    exact hdiscard.bind fun _ _ hm => ih hm

/-- The stack is known to the outline by its depth only, which is enough to tell whether there are
`n` values. -/
theorem meets_popMany (hb : At b o) (n : Nat) : Meets AtRest (b.popMany n) (o.exchange n 0) := by
  obtain ⟨hopen, rfl⟩ := hb
  have hdepth : b.outline.depth = b.stack.length := rfl
  unfold popMany Outline.exchange
  rw [hdepth]
  by_cases hn : b.stack.length < n
  · rw [if_pos hn, if_neg (Nat.not_le_of_lt hn)]
    trivial
  · rw [if_neg hn, if_pos (Nat.le_of_not_lt hn)]
    refine ⟨hopen, ?_⟩
    simp [outline]

/-- One value is taken as the last of several would be. -/
theorem meets_popExpr (hb : At b o) (f : Fault) : Meets AtRest (b.popExpr f) (o.exchange 1 0) := by
  obtain ⟨hopen, rfl⟩ := hb
  have hdepth : b.outline.depth = b.stack.length := rfl
  unfold popExpr Outline.exchange
  rw [hdepth]
  cases b.stack with
  | nil => trivial
  | cons e rest => exact ⟨hopen, rfl⟩

/-- The outline knows the depth of a block. -/
theorem meets_leaveBlock (hb : At b o) : Meets At b.leaveBlock o.leave := by
  obtain ⟨hopen, rfl⟩ := hb
  unfold leaveBlock Outline.leave
  rw [scope_outline]
  cases b.block.depth with
  | zero => trivial
  | succ depth => exact at_setBlock hopen _

/-- The outline knows the variables of a block. -/
theorem meets_declare (hb : At b o) (v : Var) : Meets At (b.declare v) (o.declare v) := by
  obtain ⟨hopen, rfl⟩ := hb
  unfold declare Outline.declare
  rw [scope_outline]
  exact meets_ite Iff.rfl trivial (at_setBlock hopen _)

/-- Whether a type can be spelled depends on the package alone. -/
theorem meets_typeText (hb : At b o) (t : Ty) : Meets AtRest (b.typeText t) (o.require t) := by
  obtain ⟨hopen, rfl⟩ := hb
  exact meets_bind fun parts => ⟨hopen, rfl⟩

/-- The outline knows which functions are open. -/
theorem meets_defineFunc (hb : At b o) (f : Func) : Meets At (b.defineFunc f) (o.defineFunc f) := by
  obtain ⟨hopen, rfl⟩ := hb
  have hany : b.bodies.any (·.func.id == f.id) = b.outline.bodies.any (·.func.id == f.id) := by
    show _ = (b.bodies.map _).any _
    rw [List.any_map]
    rfl
  unfold defineFunc Outline.defineFunc
  rw [checkOpen_bind hopen, hany]
  exact meets_ite Iff.rfl trivial ⟨hopen, rfl⟩

/-- The outline knows which function is innermost, and whether its signature can be spelled. -/
theorem meets_endFunc (hb : At b o) (f : Func) : Meets At (b.endFunc f) (o.endFunc f) := by
  obtain ⟨hopen, rfl⟩ := hb
  have hbodies : b.outline.bodies =
      b.bodies.map fun body => ⟨body.func, body.block.vars, body.block.depth⟩ := rfl
  unfold endFunc Outline.endFunc
  rw [checkOpen_bind hopen, hbodies]
  cases b.bodies with
  | nil => trivial
  | cons body outer =>
    refine meets_ite Iff.rfl trivial (meets_bind fun parts => ?_)
    -- Whether it becomes a declaration or a literal, the body is no longer open.
    dsimp only
    split
    · exact ⟨hopen, rfl⟩
    · exact ⟨hopen, rfl⟩

/-- A statement ends with the values that there were when it started, or fewer. -/
theorem meets_endStmt (hb : At b o) (pos : Option SourcePos) (mark : Nat) :
    Meets At (b.endStmt pos mark) (o.endStmt mark) := by
  obtain ⟨hopen, rfl⟩ := hb
  have hstmts : b.outline.stmts[mark]? = b.stmts[mark]?.map StmtMark.stackDepth := by
    simp [outline]
  unfold endStmt Outline.endStmt
  rw [checkOpen_bind hopen, hstmts]
  cases b.stmts[mark]? with
  | none => trivial
  | some state =>
    have hm : At { b with stmts := b.stmts.take mark }
        { b.outline with stmts := b.outline.stmts.take mark } := by
      refine ⟨hopen, ?_⟩
      simp [outline]
    show Meets At _ (Outline.exchange _ _ 0)
    rw [← Option.bind_fun_some (Outline.exchange _ _ 0)]
    refine (meets_popMany hm _).bind fun _ _ hr => ?_
    rw [← Option.bind_some _ some]
    refine (meets_discardAll hr _).bind fun _ _ hn => ?_
    dsimp only
    split
    · exact hn.setLines _
    · exact hn

/-- The outline knows which slots are empty. -/
theorem meets_fill (hb : At b o) (r : Reservation) (v : Value) :
    Meets At (b.fill r v) (o.fill r) := by
  obtain ⟨hopen, rfl⟩ := hb
  have hfilled : b.outline.filled[r.position]? = b.slots[r.position]?.map Option.isSome := by
    simp [outline]
  have hid : b.outline.id = b.id := rfl
  unfold fill Outline.fill
  rw [checkOpen_bind hopen, hfilled, hid]
  refine meets_ite Iff.rfl trivial ?_
  rcases b.slots[r.position]? with _ | _ | text
  · trivial
  · refine ⟨hopen, ?_⟩
    simp [outline]
  · trivial

theorem meets_silent {outcome : Except Fault Builder} {plan : Option Outline}
    (h : Meets At outcome plan) : Meets AtRest (Action.silent outcome) plan := by
  cases outcome <;> cases plan <;> exact h

/-- Actions do to a state what they do to its outline. -/
theorem meets_perform {β : Type} (hb : At b o) (action : Action β) :
    Meets AtRest (action.perform b) (o.perform action) := by
  cases action with
  | take f => exact meets_popExpr hb f
  | takeMany n => exact meets_popMany hb n
  | push e =>
    obtain ⟨hopen, rfl⟩ := hb
    refine meets_silent ?_
    rw [pushExpr, checkOpen_bind hopen]
    exact ⟨hopen, rfl⟩
  | line pieces => exact meets_silent (meets_line hb pieces)
  | discard es => exact meets_silent (meets_discardAll hb es)
  | label l =>
    refine meets_silent ?_
    rw [label, checkOpen_bind hb.unresolved]
    exact hb.setLines _
  | enter =>
    obtain ⟨hopen, rfl⟩ := hb
    show At _ _
    rw [Outline.enter, scope_outline]
    exact at_setBlock hopen _
  | leave => exact meets_silent (meets_leaveBlock hb)
  | spell t => exact meets_typeText hb t
  | qualify n =>
    show At (b.qualified n).2 o
    unfold qualified
    split
    · exact hb
    · exact ⟨hb.unresolved, hb.outline⟩
  | name stem => exact ⟨hb.unresolved, hb.outline⟩
  | declare v => exact meets_silent (meets_declare hb v)
  | openFor id | closeFor id | setCollectors cs =>
    obtain ⟨hopen, rfl⟩ := hb
    exact ⟨hopen, rfl⟩
  | defineFunc f => exact meets_silent (meets_defineFunc hb f)
  | endFunc f => exact meets_silent (meets_endFunc hb f)
  | startStmt =>
    obtain ⟨hopen, rfl⟩ := hb
    refine meets_silent ?_
    rw [startStmt, checkOpen_bind hopen]
    refine ⟨hopen, ?_⟩
    simp [outline, Outline.startStmt]
  | endStmt pos mark => exact meets_silent (meets_endStmt hb pos mark)
  | reserve =>
    obtain ⟨hopen, rfl⟩ := hb
    refine meets_silent ?_
    rw [reserve, checkOpen_bind hopen]
    refine ⟨hopen, ?_⟩
    simp [outline, Outline.reserve]
  | fill r v => exact meets_silent (meets_fill hb r v)

end Builder

/-! ## Scripts -/

/-- Whatever its actions reply, the script leads from an outline to the outline that is foretold, or
to a fault if there is none. -/
inductive Foretells {α : Type} : Outline → Script α → Option Outline → Prop
  | done (o : Outline) (a : α) : Foretells o (.done a) (some o)
  | fail (o : Outline) (f : Fault) : Foretells o (.fail f) none
  | act {o : Outline} {β : Type} (action : Action β) {next : β → Script α}
    (rest : Outline → Option Outline)
    (h : ∀ x o', o.perform action = some o' → Foretells o' (next x) (rest o')) :
    Foretells o (.act action next) ((o.perform action).bind rest)

/-- What is foretold comes true. -/
theorem Foretells.meets {α : Type} {o : Outline} {s : Script α} {plan : Option Outline}
    (h : Foretells o s plan) {b : Builder} (hb : Builder.At b o) :
    Meets Builder.AtRest (s.run b) plan := by
  induction h generalizing b with
  | done o a => exact hb
  | fail o f => trivial
  | @act o _ action _ _ _ ih =>
    have hperform := Builder.meets_perform hb action
    rw [Script.run]
    cases ho : o.perform action with
    | none =>
      obtain ⟨f, hf⟩ := (ho ▸ hperform).exists_error
      rw [hf]
      trivial
    | some o' =>
      obtain ⟨r, hr, hat⟩ := (ho ▸ hperform).exists_ok
      rw [hr]
      exact ih r.1 o' ho hat

section Foretells

variable {α β : Type} {o : Outline} {next : β → Script α} {plan : Option Outline} {m n k : Nat}

/-- An action that does not show in the outline. -/
theorem Foretells.inert {action : Action β} (h : ∀ x, Foretells o (next x) plan)
    (haction : o.perform action = some o := by rfl) : Foretells o (.act action next) plan := by
  have hact : Foretells o (.act action next) ((o.perform action).bind fun _ => plan) := by
    refine .act _ _ fun x o' ho' => ?_
    obtain rfl := Option.some.inj (haction.symm.trans ho')
    exact h x
  rwa [haction] at hact

/-- Values that are taken first. -/
theorem Foretells.takeMany {next : List Fragment → Script α}
    (h : ∀ es o, Foretells o (next es) (o.exchange n k)) :
    Foretells o (.act (.takeMany m) next) (o.exchange (m + n) k) := by
  rw [← Outline.exchange_bind]
  exact .act _ _ fun es o' _ => h es o'

/-- One value taken first, and what the rest takes and leaves. -/
theorem Foretells.take {f : Fault} {next : Fragment → Script α}
    (h : ∀ e o, Foretells o (next e) (o.exchange n k)) :
    Foretells o (.act (.take f) next) (o.exchange (n + 1) k) := by
  rw [Nat.add_comm, ← Outline.exchange_bind]
  exact .act _ _ fun e o' _ => h e o'

/-- A value that is left. -/
theorem Foretells.push {e : Fragment} {next : Unit → Script α}
    (h : ∀ o, Foretells o (next ()) (some o)) :
    Foretells o (.act (.push e) next) (o.exchange 0 1) := by
  rw [← Option.bind_fun_some (o.exchange 0 1)]
  exact .act _ _ fun _ o' _ => h o'

theorem foretells_push (o : Outline) (e : Fragment) :
    Foretells o (Script.push e) (o.exchange 0 1) := .push fun o => .done o ()

theorem foretells_line (o : Outline) (pieces : List Piece) :
    Foretells o (Script.line pieces) (some o) := .inert fun _ => .done o ()

/-- A type that has to be written. -/
theorem Foretells.spell {t : Ty} {next : String → Script α} (h : ∀ s, Foretells o (next s) plan) :
    Foretells o (.act (.spell t) next) (if spells o.package t = true then plan else none) := by
  have hact : Foretells o (.act (.spell t) next) ((o.require t).bind fun _ => plan) := by
    refine .act _ _ fun s o' ho' => ?_
    obtain ⟨-, ho'⟩ := Option.ite_none_right_eq_some.mp ho'
    obtain rfl := Option.some.inj ho'
    exact h s
  have hplan : ((o.require t).bind fun _ => plan) =
      if spells o.package t = true then plan else none := by
    unfold Outline.require
    split <;> rfl
  rwa [hplan] at hact

/-- A computation that the plan only asks to succeed. -/
theorem foretells_ofExcept_bind (outcome : Except Fault β) (h : ∀ x, Foretells o (next x) plan) :
    Foretells o (Script.ofExcept outcome >>= next)
      (if outcome.isOk = true then plan else none) := by
  cases outcome with
  | error f => exact .fail o f
  | ok x => exact h x

/-- Values that one takes the place of, if a type can be written. -/
theorem Foretells.typed (action : Action β) (t : Ty) (e : β → String → Fragment)
    (haction : o.perform action = o.exchange m 0) :
    Foretells o (.act action fun x => .act (.spell t) fun s => Script.push (e x s))
      (if spells o.package t = true then o.exchange m 1 else none) := by
  have hplan : (if spells o.package t = true then o.exchange m 1 else none) =
      (o.perform action).bind fun o =>
        if spells o.package t = true then o.exchange 0 1 else none := by
    rw [haction]
    by_cases hm : m ≤ o.depth <;> by_cases ht : spells o.package t = true <;>
      simp [Outline.exchange, hm, ht]
  rw [hplan]
  exact .act _ _ fun x o _ => .spell fun s => foretells_push o _

end Foretells

/-! ## Calls -/

namespace Script

variable {α : Type} (o : Outline) {n k : Nat}

/-- The tag stays, in one form or another. -/
theorem foretells_hoistTag {next : Fragment → Script α}
    (h : ∀ tag o, Foretells o (next tag) (some o)) :
    Foretells o (hoistTag >>= next) (o.exchange 1 1) := by
  simp only [hoistTag, act_bind, done_bind, ite_bind, pure_eq_done]
  refine .take fun tag o => ?_
  split
  · exact .push fun o => h tag o
  · exact .inert fun name => .inert fun _ => .push fun o => h _ o

/-- A loop takes its container, and may not be open already. -/
theorem foretells_forPhrase {b : Builder} (hfors : o.fors = b.fors) (f : ForPhrase)
    (key val : Option Var) :
    Foretells o (forPhrase b f key val) ((o.exchange 1 0).bind fun o => o.startFor f) := by
  simp only [forPhrase, openBlock, act_bind, done_bind]
  refine .act (.take .stackUnderflow) _ fun container o' ho' => ?_
  obtain ⟨-, rfl⟩ := Outline.exchange_eq_some.mp ho'
  unfold Outline.startFor
  dsimp only
  rw [hfors]
  split
  · exact .fail _ _
  · refine .act (.openFor f.id) (fun o => some o.enter) fun _ o' ho' => ?_
    exact .inert fun _ => .act .enter some fun _ o' _ => .done o' ()

/-- A closing line needs a block to leave. -/
theorem foretells_closeBlock : Foretells o closeBlock o.leave := by
  rw [← Option.bind_fun_some o.leave]
  exact .act .leave _ fun _ o _ => foretells_line o _

/-- A condition opens a block and closes it again, so of both only the value that it takes is
seen. -/
theorem foretells_filterForPhrase {b : Builder} (hfors : o.fors = b.fors) (f : ForPhrase) :
    Foretells o (filterForPhrase b f)
      (if (o.fors.lookup f.id).isSome = true then o.exchange 1 0 else none) := by
  simp only [filterForPhrase, openBlock, act_bind, done_bind]
  rw [hfors]
  cases b.fors.lookup f.id with
  | none => exact .fail _ _
  | some depth =>
    refine .take fun c o => .inert fun _ => ?_
    show Foretells o _ (some o)
    rw [← Outline.leave_enter o]
    exact .act .enter Outline.leave fun _ o _ => .inert fun _ =>
      foretells_closeBlock o

/-- How many values are collected depends on whether the innermost comprehension makes a map. -/
theorem foretells_collect {collectors : List Collector} {next : Unit → Script α}
    {rest : Outline → Option Outline}
    (hcollectors : o.collectors = collectors.map fun c => (c.id, c.isMap))
    (h : ∀ o, Foretells o (next ()) (rest o)) :
    Foretells o (collect collectors >>= next) (o.collect.bind rest) := by
  unfold Outline.collect
  rw [hcollectors]
  rcases collectors with _ | ⟨⟨id, name, _ | _⟩, outer⟩
  · exact .fail _ _
  · exact .act (.take .stackUnderflow) _ fun _ o _ => .inert fun _ => h o
  · exact .act (.takeMany 2) _ fun _ o _ => .inert fun _ => h o

/-- Whether values are collected at the end of a loop depends on the depth of the stack at its
start. -/
theorem foretells_endForPhrase (b : Builder) (f : ForPhrase) :
    Foretells b.outline (endForPhrase b f) (b.outline.endFor f) := by
  have hfors : b.outline.fors = b.fors := rfl
  unfold endForPhrase Outline.endFor
  rw [hfors]
  cases b.fors.lookup f.id with
  | none => exact .fail _ _
  | some depth =>
    simp only [act_bind, done_bind]
    refine .act (.closeFor f.id) (fun o =>
      (if depth < b.stack.length then o.collect else some o).bind Outline.leave) fun _ o ho => ?_
    obtain rfl := Option.some.inj ho
    split
    · exact foretells_collect _ rfl foretells_closeBlock
    · exact foretells_closeBlock _

theorem foretells_startComprehension (b : Builder) (c : Comprehension) (isMap : Bool) :
    Foretells b.outline (startComprehension b c isMap) (b.outline.startComprehension c isMap) := by
  refine .inert fun name => ?_
  unfold Outline.startComprehension
  rw [Option.map_eq_bind]
  refine .act (.spell c.out) _ fun type o ho => .inert fun _ => ?_
  obtain ⟨-, ho⟩ := Option.ite_none_right_eq_some.mp ho
  obtain rfl := Option.some.inj ho
  exact .act (.setCollectors _) _ fun _ o _ => .done o ()

theorem foretells_endComprehension (b : Builder) (c : Comprehension) :
    Foretells b.outline (endComprehension b c) (b.outline.endComprehension c) := by
  have hcollectors : b.outline.collectors = b.collectors.map fun c => (c.id, c.isMap) := rfl
  unfold endComprehension Outline.endComprehension
  rw [hcollectors]
  cases b.collectors with
  | nil => exact .fail _ _
  | cons collector outer =>
    simp only [List.map_cons]
    by_cases hid : collector.id = c.id
    · rw [if_pos hid, if_pos hid]
      exact .act (.setCollectors outer) _ fun _ o _ => foretells_push o _
    · rw [if_neg hid, if_neg hid]
      exact .fail _ _

theorem foretells_callNamed (name : String) (n : Nat) (ellipsis : Bool) :
    Foretells o (callNamed name n ellipsis) (o.exchange n 1) :=
  .takeMany (n := 0) fun _ o => foretells_push o _

/-- By induction on the variables: each is declared before the next one. -/
theorem foretells_defineVar (vs : List Var) :
    Foretells o (vs.forM defineVar) (vs.foldlM Outline.defineVar o) := by
  induction vs generalizing o with
  | nil => exact .done o ()
  | cons v vs ih =>
    rw [List.foldlM_cons, Outline.defineVar, Option.bind_eq_bind, Option.bind_assoc]
    refine .act (.declare v) _ fun _ o _ => ?_
    exact .act (.spell v.ty) _ fun _ o _ => .inert fun _ => ih o

theorem foretells_store (name : String) : Foretells o (store name) (o.exchange 1 0) :=
  .take fun _ o => foretells_line o _

/-- The container is on the stack, and the index is unless it is given in the call. -/
theorem foretells_indexOperands {i : Int} {next : Fragment × Fragment → Script α}
    (h : ∀ operands o, Foretells o (next operands) (o.exchange n k)) :
    Foretells o (indexOperands i >>= next) (o.exchange ((if i < 0 then 2 else 1) + n) k) := by
  rw [Nat.add_comm]
  unfold indexOperands
  split
  · exact .take fun _ o => .take fun _ o => h _ o
  · exact .take fun _ o => h _ o

theorem foretells_setIndex (i : Int) :
    Foretells o (setIndex i) (o.exchange (if i < 0 then 3 else 2) 0) := by
  have hcount : (if i < 0 then 3 else 2) = (if i < 0 then 2 else 1) + 1 := by split <;> rfl
  rw [hcount]
  exact foretells_indexOperands o fun _ o => .take fun _ o => foretells_line o _

/-- Each bound that is on the stack takes one value. -/
theorem foretells_sliceBounds {bounds : List Int} {next : List (Option Fragment) → Script α}
    (h : ∀ bounds o, Foretells o (next bounds) (o.exchange n k)) :
    Foretells o (sliceBounds bounds >>= next)
      (o.exchange (bounds.count boundFromStack + n) k) := by
  induction bounds generalizing next n with
  | nil =>
    rw [List.count_nil, Nat.zero_add]
    exact h [] o
  | cons i rest ih =>
    rw [sliceBounds, bind_assoc, List.count_cons, Nat.add_assoc]
    refine ih fun bounds o => ?_
    by_cases hi : i = boundFromStack
    · subst hi
      rw [Nat.add_comm]
      exact .take fun _ o => h _ o
    · have hnone : (if (i == boundFromStack) = true then 1 else 0) = 0 := if_neg (by simpa using hi)
      rw [hnone, Nat.zero_add, if_neg hi]
      split
      · exact h _ o
      · exact h _ o

end Script

namespace Builder

open Script

/-- Parameters are counted from the last one backwards. -/
theorem isOk_argName (b : Builder) (i : Int) :
    (b.argName i).isOk = decide (-(b.outline.numParams : Int) ≤ i ∧ i < 0) := by
  have hname : b.argName i =
      if (b.outline.numParams : Int) + i < 0 ∨ (b.outline.numParams : Int) ≤ b.outline.numParams + i
      then .error (.argumentIndex i b.outline.numParams)
      else .ok ("arg" ++ toString ((b.outline.numParams : Int) + i)) := by
    unfold argName Outline.numParams outline
    cases b.bodies <;> rfl
  rw [hname]
  split
  · rw [decide_eq_false (by omega)]
    rfl
  · rw [decide_eq_true (by omega)]
    rfl

/-- A call does what the protocol says. -/
theorem foretells_script (b : Builder) (c : Call) :
    Foretells b.outline (b.script c) (b.outline.step c) := by
  cases c with
  | push v | closure f | nativeClosure f | loadVar v | addrVar v => exact foretells_push _ _
  | pop n => exact .takeMany (n := 0) fun _ o => .inert fun _ => .done o ()
  | builtinOp k op =>
    cases op with
    | unary op => exact .take fun _ o => foretells_push o _
    | binary op => exact .take fun _ o => .take fun _ o => foretells_push o _
  | label l => exact .inert fun _ => .done _ ()
  | jump l => exact foretells_line _ _
  | jumpIf cond l => exact .take fun _ o => foretells_line o _
  | caseNe l arity =>
    exact .takeMany fun _ o => foretells_hoistTag o fun _ o => foretells_line o _
  | defaultCase => exact .take fun _ o => .done o ()
  | forPhrase f key val hasContext => exact foretells_forPhrase _ rfl f key val
  | filterForPhrase f => exact foretells_filterForPhrase _ rfl f
  | endForPhrase f => exact foretells_endForPhrase b f
  | listComprehension d => exact foretells_startComprehension b d false
  | mapComprehension d => exact foretells_startComprehension b d true
  | endComprehension d => exact foretells_endComprehension b d
  | callClosure n arity ellipsis | callNativeClosure n arity ellipsis =>
    exact .takeMany fun _ o => .take fun _ o => foretells_push o _
  | callFunc f n | callVariadicFunc f n arity => exact foretells_callNamed _ _ n _
  | callNative address n | callVariadicNative address n arity =>
    refine foretells_ofExcept_bind _ fun native => .takeMany (n := 0) fun _ o => ?_
    exact .inert fun name => foretells_push o _
  | defineFunc f | endFunc f | endStmt pos mark | fill r v =>
    rw [← Option.bind_fun_some (Outline.step _ _)]
    exact .act _ _ fun _ o _ => .done o ()
  | ret n =>
    show Foretells _ (Script.ret n) (Outline.exchange _ (if _ then _ else _) 0)
    unfold Script.ret
    split
    · exact foretells_line _ _
    · exact .takeMany (n := 0) fun _ o => foretells_line o _
  | load i =>
    have h := foretells_ofExcept_bind (b.argName i) fun name =>
      foretells_push b.outline (.primary name)
    rwa [isOk_argName] at h
  | store i =>
    have h := foretells_ofExcept_bind (b.argName i) fun name =>
      foretells_store b.outline name
    rwa [isOk_argName] at h
  | defineVar vs => exact foretells_defineVar _ vs
  | storeVar v => exact foretells_store _ _
  | addressOp k op =>
    cases op with
    | value => exact .take fun _ o => foretells_push o _
    | inc | dec => exact .take fun _ o => foretells_line o _
    | _ => exact .take fun _ o => .take fun _ o => foretells_line o _
  | append t arity =>
    show Foretells _ (Script.append arity) (Outline.exchange _ (if _ then _ else _) 1)
    unfold Script.append
    split
    · exact foretells_callNamed _ _ _ _
    · exact foretells_callNamed _ _ _ _
  | makeArray t n => exact .typed (.takeMany n) t (fun es s => .listLiteral s es) rfl
  | makeMap t n => exact .typed (.takeMany _) t (fun es s => .mapLiteral s es) rfl
  | make t n => exact .spell fun _ => .takeMany (n := 0) fun _ o => foretells_push o _
  | mapIndex | index i => exact foretells_indexOperands (n := 0) _ fun _ o => foretells_push o _
  | setMapIndex => exact foretells_setIndex _ _
  | setIndex i => exact foretells_setIndex _ i
  | slice i j | slice3 i j k =>
    exact foretells_sliceBounds _ fun _ o => .take fun _ o => foretells_push o _
  | cast source target => exact .typed (.take _) target (fun e s => .conversion s e) rfl
  | builtin t f =>
    show Foretells _ (Script.builtin f) (Outline.exchange _ f.arity (if _ then _ else _))
    simp only [Script.builtin, act_bind, done_bind]
    refine .takeMany (n := 0) fun _ o => ?_
    split
    · exact foretells_push o _
    · exact foretells_line o _
  | zero t =>
    show Foretells _ (Script.zero t) (if (Option.isSome _ || _) = true then _ else none)
    unfold Script.zero
    cases if t.isNamed = true then none else zeroText? t.kind with
    | some text => exact foretells_push _ _
    | none => exact .spell fun _ => foretells_push _ _
  | startStmt pos | reserve => exact .act _ some fun _ o _ => .done o ()

/-! ## Steps and runs -/

variable {b : Builder} {o : Outline}

/-- The backend follows the protocol. -/
theorem meets_step (hb : At b o) (c : Call) : Meets At (b.step c) (o.step c) := by
  obtain ⟨hopen, rfl⟩ := hb
  have h := (foretells_script b c).meets ⟨hopen, rfl⟩
  unfold step
  revert h
  cases (b.script c).run b <;> cases b.outline.step c <;> exact fun h => h

/-- **The outline foretells runs.** A builder accepts calls exactly as long as the outline does. -/
theorem meets_run (hb : At b o) (calls : List Call) :
    Meets At (Backend.run b calls) (calls.foldlM Outline.step o) :=
  meets_foldlM (fun _ _ c hm => meets_step hm c) calls hb

end Builder

end Lowering.Source
