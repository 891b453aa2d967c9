import Lowering.Proofs.Run
import Lowering.Source.Builder

/-!
# What calls are made of

A call runs its script, so what holds of every action holds of calls. This module says what actions
do, in one lemma each, and takes scripts apart: `run_act_eq_ok` says when a script that begins with
an action succeeds, and `run_relates` lifts a relation between states from actions to scripts.
Several actions write in the innermost block and do nothing else; `addsLines_of_perform` is about
all of them.

Which actions a call may perform is said once, for all calls, in `performs_script`: it spells types
that it mentions, names symbols of the registry, and bodies, statements and slots are the matter of
calls of their own.
-/

namespace Lowering

/-- The types that a call writes down. -/
def Call.types : Call → List Ty
  | listComprehension c | mapComprehension c => [c.out]
  | endFunc f => f.params ++ f.results.map (·.ty)
  | defineVar vs => vs.map (·.ty)
  | makeArray t _ | makeMap t _ | make t _ | cast _ t | zero t => [t]
  | _ => []

namespace Source

variable {α β : Type}

namespace Builder

variable {b b' : Builder}

/-! ## What actions do -/

/-- A resolved builder refuses, and nothing else is checked here. -/
theorem checkOpen_bind_eq_ok {what : Activity} {next : Unit → Except Fault Builder} :
    (b.checkOpen what >>= next) = .ok b' ↔ b.resolved = false ∧ next () = .ok b' := by
  unfold checkOpen
  cases b.resolved with
  | false => exact ⟨fun h => ⟨rfl, h⟩, fun h => h.2⟩
  | true => exact ⟨nofun, nofun⟩

/-- Pushing needs an open builder, while taking a value does not. -/
theorem pushExpr_eq_ok {e : Fragment} :
    b.pushExpr e = .ok b' ↔ b.resolved = false ∧ { b with stack := e :: b.stack } = b' := by
  rw [pushExpr, checkOpen_bind_eq_ok]
  exact and_congr_right fun _ => ⟨Except.ok.inj, congrArg Except.ok⟩

/-- Only an empty stack has no value to take. -/
theorem popExpr_eq_ok {f : Fault} {e : Fragment} :
    b.popExpr f = .ok (e, b') ↔ ∃ rest, b.stack = e :: rest ∧ { b with stack := rest } = b' := by
  unfold popExpr
  cases b.stack with
  | nil => simp
  | cons e' rest => simp [and_assoc]

/-- Several values come off together, the oldest first. -/
theorem popMany_eq_ok {n : Nat} {es : List Fragment} :
    b.popMany n = .ok (es, b') ↔ n ≤ b.stack.length ∧ (b.stack.take n).reverse = es ∧
      { b with stack := b.stack.drop n } = b' := by
  unfold popMany
  by_cases hn : b.stack.length < n
  · rw [if_pos hn]
    exact ⟨nofun, fun h => absurd h.1 (Nat.not_le_of_lt hn)⟩
  · rw [if_neg hn]
    simp [Nat.le_of_not_lt hn]

/-- A line is written at the depth that the block has at this moment. -/
theorem line_eq_ok {pieces : List Piece} :
    b.line pieces = .ok b' ↔ b.resolved = false ∧
      b.setBlock { b.block with lines := b.block.lines.push ⟨b.block.depth, pieces⟩ } = b' := by
  rw [line, checkOpen_bind_eq_ok]
  exact and_congr_right fun _ => ⟨Except.ok.inj, congrArg Except.ok⟩

/-- A label stands one level further out than the lines around it. -/
theorem label_eq_ok {l : Label} :
    b.label l = .ok b' ↔ b.resolved = false ∧
      b.setBlock { b.block with
        lines := b.block.lines.push ⟨b.block.depth - 1, [.text (labelName l ++ ":")]⟩ } = b' := by
  rw [label, checkOpen_bind_eq_ok]
  exact and_congr_right fun _ => ⟨Except.ok.inj, congrArg Except.ok⟩

/-- A block at depth zero cannot be left. -/
theorem leaveBlock_eq_ok :
    b.leaveBlock = .ok b' ↔ ∃ depth, b.block.depth = depth + 1 ∧
      b.setBlock { b.block with depth := depth } = b' := by
  unfold leaveBlock
  cases b.block.depth <;> simp

/-- A variable is declared once in a block. -/
theorem declare_eq_ok {v : Var} :
    b.declare v = .ok b' ↔ b.block.vars.contains v.id = false ∧
      b.setBlock { b.block with vars := v.id :: b.block.vars } = b' := by
  unfold declare
  cases b.block.vars.contains v.id <;> simp

/-- A type is spelled with paths first, then the paths are replaced by aliases. -/
theorem typeText_eq_ok {t : Ty} {r : String × Builder} :
    b.typeText t = .ok r ↔
      ∃ parts, Source.spell b.options.package t = .ok parts ∧ b.resolveParts parts = r := by
  rw [typeText, bind_eq_ok]
  exact exists_congr fun _ => and_congr_right fun _ => ⟨Except.ok.inj, congrArg Except.ok⟩

/-- A reserved constant is an empty slot, and a fragment that stands for it. -/
theorem reserve_eq_ok :
    b.reserve = .ok b' ↔ b.resolved = false ∧
      { b with slots := b.slots.push none, stack := .slot b.slots.size :: b.stack } = b' := by
  rw [reserve, checkOpen_bind_eq_ok]
  exact and_congr_right fun _ => ⟨Except.ok.inj, congrArg Except.ok⟩

/-- A slot is filled once, by the builder that it belongs to. -/
theorem fill_eq_ok {r : Reservation} {v : Value} :
    b.fill r v = .ok b' ↔ b.resolved = false ∧ r.builder = b.id ∧
      b.slots[r.position]? = some none ∧
      { b with slots := b.slots.setIfInBounds r.position (some (literalText v)) } = b' := by
  rw [fill, checkOpen_bind_eq_ok]
  refine and_congr_right fun _ => ?_
  by_cases hr : r.builder = b.id
  · rw [if_neg (not_not_intro hr)]
    rcases b.slots[r.position]? with _ | _ | text
    · exact ⟨nofun, nofun⟩
    · exact ⟨fun h => ⟨hr, rfl, Except.ok.inj h⟩, fun h => congrArg Except.ok h.2.2⟩
    · exact ⟨nofun, nofun⟩
  · rw [if_pos hr]
    exact ⟨nofun, fun h => absurd h.1 hr⟩

/-- A statement remembers how many values and lines there were before it. -/
theorem startStmt_eq_ok : b.startStmt = .ok b' ↔ b.resolved = false ∧
    { b with stmts := b.stmts.push ⟨b.stack.length, b.block.lines.size⟩ } = b' := by
  rw [startStmt, checkOpen_bind_eq_ok]
  exact and_congr_right fun _ => ⟨Except.ok.inj, congrArg Except.ok⟩

/-- Ends a statement, apart from its directive. -/
def discardLeft (b : Builder) (mark : Nat) (state : StmtMark) : Except Fault Builder := do
  let b := { b with stmts := b.stmts.take mark }
  let (rest, b) ← b.popMany (b.stack.length - state.stackDepth)
  b.discardAll rest

/-- What is left on the stack is never too little. -/
theorem discardLeft_eq (mark : Nat) (state : StmtMark) :
    b.discardLeft mark state =
      discardAll { b with
        stmts := b.stmts.take mark
        stack := b.stack.drop (b.stack.length - state.stackDepth) }
        (b.stack.take (b.stack.length - state.stackDepth)).reverse := by
  rw [discardLeft, popMany, if_neg (Nat.not_lt_of_le (Nat.sub_le ..))]
  rfl

/-- Puts the directive of a position where a statement started. -/
def placeDirective (b : Builder) (pos : Option SourcePos) (line : Nat) : Builder :=
  match pos, b.options.lineDirectives with
  | some pos, true =>
    b.setBlock { b.block with lines :=
      b.block.lines.insertIdxIfInBounds (min line b.block.lines.size) (directive pos) }
  | _, _ => b

/-- The end of a statement writes what is left on the stack, and puts the directive in front. -/
theorem endStmt_eq_ok {pos : Option SourcePos} {mark : Nat} :
    b.endStmt pos mark = .ok b' ↔ b.resolved = false ∧ ∃ state r, b.stmts[mark]? = some state ∧
      b.discardLeft mark state = .ok r ∧ r.placeDirective pos state.line = b' := by
  rw [endStmt, checkOpen_bind_eq_ok]
  refine and_congr_right fun _ => ?_
  cases b.stmts[mark]? with
  | none => exact ⟨nofun, nofun⟩
  | some state =>
    constructor
    · intro h
      obtain ⟨⟨rest, r⟩, hpop, h⟩ := bind_eq_ok.mp h
      obtain ⟨r', hdiscard, h⟩ := bind_eq_ok.mp h
      refine ⟨state, r', rfl, bind_eq_ok.mpr ⟨_, hpop, hdiscard⟩, ?_⟩
      revert h
      unfold placeDirective
      cases pos with
      | none => exact Except.ok.inj
      | some pos => cases r'.options.lineDirectives <;> exact Except.ok.inj
    · rintro ⟨_, r', ⟨⟩, hdiscard, rfl⟩
      obtain ⟨⟨rest, r⟩, hpop, hdiscard⟩ := bind_eq_ok.mp hdiscard
      refine bind_eq_ok.mpr ⟨_, hpop, bind_eq_ok.mpr ⟨_, hdiscard, ?_⟩⟩
      unfold placeDirective
      cases pos with
      | none => rfl
      | some pos => cases r'.options.lineDirectives <;> rfl

/-- A function may be defined unless its body is open. Named results count as declared. -/
theorem defineFunc_eq_ok {f : Func} :
    b.defineFunc f = .ok b' ↔ b.resolved = false ∧ b.bodies.any (·.func.id == f.id) = false ∧
      { b with bodies := ⟨f, { vars := if f.hasUnnamedResults then [] else f.results.map (·.id) }⟩
          :: b.bodies } = b' := by
  rw [defineFunc, checkOpen_bind_eq_ok]
  refine and_congr_right fun _ => ?_
  by_cases hany : b.bodies.any (·.func.id == f.id) = true
  · rw [if_pos hany]
    exact ⟨nofun, fun h => absurd hany (Bool.eq_false_iff.mp h.1)⟩
  · rw [if_neg hany]
    exact ⟨fun h => ⟨Bool.eq_false_iff.mpr hany, Except.ok.inj h⟩, fun h => congrArg Except.ok h.2⟩

/-- Adds a function with its lines: a declaration at package level, or a literal. -/
def addFunc (b : Builder) (f : Func) (lines : List Line) (signature : String) : Builder :=
  if f.nestDepth = 0 then
    let header : Line := ⟨0, [.text ("func " ++ f.name ++ signature ++ " \x7b")]⟩
    { b with funcs := b.funcs.push ([header] ++ lines ++ [⟨0, [.text "\x7d"]⟩]) }
  else
    let literal : Fragment := { pieces := literalPieces b.block.depth signature lines }
    { b with closures := (f.id, literal) :: b.closures }

/-- Only the innermost body can end. Its signature is spelled outside of it. -/
theorem endFunc_eq_ok {f : Func} :
    b.endFunc f = .ok b' ↔ b.resolved = false ∧ ∃ body outer parts, b.bodies = body :: outer ∧
      body.func.id = f.id ∧ spellSignature b.options.package f = .ok parts ∧
      (resolveParts { b with bodies := outer } parts).2.addFunc f body.block.lines.toList
        (resolveParts { b with bodies := outer } parts).1 = b' := by
  rw [endFunc, checkOpen_bind_eq_ok]
  refine and_congr_right fun _ => ?_
  cases b.bodies with
  | nil => exact ⟨nofun, nofun⟩
  | cons body outer =>
    dsimp only
    by_cases hid : body.func.id = f.id
    · rw [if_neg (not_not_intro hid)]
      constructor
      · intro h
        obtain ⟨parts, hparts, h⟩ := bind_eq_ok.mp h
        refine ⟨body, outer, parts, rfl, hid, hparts, ?_⟩
        revert h
        unfold addFunc
        split <;> exact Except.ok.inj
      · rintro ⟨_, _, parts, ⟨⟩, -, hparts, rfl⟩
        refine bind_eq_ok.mpr ⟨parts, hparts, ?_⟩
        unfold addFunc
        split <;> rfl
    · rw [if_pos hid]
      refine ⟨nofun, ?_⟩
      rintro ⟨_, _, _, ⟨⟩, h, -⟩
      exact absurd h hid

end Builder

/-- Without a reply, the outcome of an action is the state behind it. -/
theorem Action.silent_eq_ok {outcome : Except Fault Builder} {r : Unit × Builder} :
    silent outcome = .ok r ↔ outcome = .ok r.2 := by
  obtain ⟨⟨⟩, b⟩ := r
  cases outcome <;> simp [silent, Except.map]

/-! ## Actions that write -/

namespace Builder

variable {b b' b'' : Builder}

theorem block_setBlock (block : Block) : (b.setBlock block).block = block := by
  unfold setBlock Builder.block
  cases b.bodies <;> rfl

theorem setBlock_block (b : Builder) : b.setBlock b.block = b := by
  unfold setBlock block
  cases h : b.bodies with
  | nil => exact congrArg (fun bodies => { b with bodies := bodies }) h.symm
  | cons body outer => exact congrArg (fun bodies => { b with bodies := bodies }) h.symm

/-- Of two changes of the block only the last one counts. -/
theorem setBlock_setBlock (k l : Block) : (b.setBlock k).setBlock l = b.setBlock l := by
  unfold setBlock
  cases b.bodies <;> rfl

/-- Nothing changes but the innermost block, and it keeps its lines. -/
def AddsLines (b b' : Builder) : Prop :=
  ∃ k : Block, b.block.lines.toList <+: k.lines.toList ∧ b.setBlock k = b'

theorem addsLines_setBlock {k : Block} (h : b.block.lines.toList <+: k.lines.toList) :
    AddsLines b (b.setBlock k) := ⟨k, h, rfl⟩

namespace AddsLines

theorem refl (b : Builder) : AddsLines b b := ⟨b.block, List.prefix_refl _, setBlock_block b⟩

theorem trans (h : AddsLines b b') (h' : AddsLines b' b'') : AddsLines b b'' := by
  obtain ⟨k, hk, rfl⟩ := h
  obtain ⟨l, hl, rfl⟩ := h'
  rw [block_setBlock] at hl
  exact ⟨l, hk.trans hl, (setBlock_setBlock k l).symm⟩

/-- Whatever does not depend on the block is left alone. -/
theorem unchanged {γ : Type} {part : Builder → γ}
    (hpart : ∀ (b : Builder) k, part (b.setBlock k) = part b) (h : AddsLines b b') :
    part b' = part b := by
  obtain ⟨k, -, rfl⟩ := h
  exact hpart b k

end AddsLines

theorem prefix_push (lines : Array Line) (l : Line) : lines.toList <+: (lines.push l).toList := by
  rw [Array.toList_push]
  exact List.prefix_append _ _

theorem addsLines_line {pieces : List Piece} (h : b.line pieces = .ok b') : AddsLines b b' := by
  obtain ⟨-, rfl⟩ := line_eq_ok.mp h
  exact addsLines_setBlock (prefix_push _ _)

/-- By induction on the values, of which each is written as one line. -/
theorem addsLines_discardAll {es : List Fragment} (h : b.discardAll es = .ok b') :
    AddsLines b b' :=
  ensures_foldlM (P := AddsLines b) (fun _ _ hm =>
    ensures_ite (fun _ h => hm.trans (addsLines_line h)) fun _ h => hm.trans (addsLines_line h))
    (.refl b) b' h

/-- A directive comes in between lines, so it does not count as adding one. -/
theorem exists_placeDirective (b : Builder) (pos : Option SourcePos) (line : Nat) :
    ∃ k, b.setBlock k = b.placeDirective pos line := by
  unfold placeDirective
  split
  · exact ⟨_, rfl⟩
  · exact ⟨b.block, setBlock_block b⟩

end Builder

/-- Whether an action writes in the innermost block, and does nothing else. -/
def Action.writes {γ : Type} : Action γ → Bool
  | line _ | discard _ | label _ | enter | leave | declare _ => true
  | _ => false

/-- Actions that write are all alike to the rest of the state. -/
theorem addsLines_of_perform {γ : Type} {action : Action γ} {b b' : Builder} {x : γ}
    (hwrites : action.writes = true) (h : action.perform b = .ok (x, b')) : b.AddsLines b' := by
  cases action with
  | line pieces => exact Builder.addsLines_line (Action.silent_eq_ok.mp h)
  | discard es => exact Builder.addsLines_discardAll (Action.silent_eq_ok.mp h)
  | label l =>
    obtain ⟨-, rfl⟩ := Builder.label_eq_ok.mp (Action.silent_eq_ok.mp h)
    exact Builder.addsLines_setBlock (Builder.prefix_push _ _)
  | enter =>
    obtain rfl := congrArg Prod.snd (Except.ok.inj h)
    exact Builder.addsLines_setBlock (List.prefix_refl _)
  | leave =>
    obtain ⟨depth, -, rfl⟩ := Builder.leaveBlock_eq_ok.mp (Action.silent_eq_ok.mp h)
    exact Builder.addsLines_setBlock (List.prefix_refl _)
  | declare v =>
    obtain ⟨-, rfl⟩ := Builder.declare_eq_ok.mp (Action.silent_eq_ok.mp h)
    exact Builder.addsLines_setBlock (List.prefix_refl _)
  | _ => cases hwrites

namespace Script

variable {s : Script α} {b b' : Builder}

/-! ## Runs of scripts -/

@[simp] theorem done_bind (a : α) (next : α → Script β) : (done a >>= next) = next a := rfl

@[simp] theorem pure_eq_done (a : α) : (pure a : Script α) = done a := rfl

@[simp] theorem fail_bind (f : Fault) (next : α → Script β) : (fail f >>= next) = fail f := rfl

@[simp] theorem act_bind {γ : Type} (action : Action γ) (rest : γ → Script α)
    (next : α → Script β) : (act action rest >>= next) = act action fun x => rest x >>= next := rfl

@[simp] theorem ite_bind {p : Prop} [Decidable p] (yes no : Script α) (next : α → Script β) :
    (if p then yes else no) >>= next = if p then yes >>= next else no >>= next := by
  split <;> rfl

instance : LawfulMonad Script := by
  refine LawfulMonad.mk' Script (fun s => ?_) (fun _ _ => rfl) fun s _ _ => ?_
  · induction s with
    | done a => rfl
    | fail f => rfl
    | act action rest ih => exact congrArg (act action) (funext ih)
  · induction s with
    | done a => rfl
    | fail f => rfl
    | act action rest ih => exact congrArg (act action) (funext ih)

/-- A script succeeds if its first action does, and then the rest with the reply. -/
theorem run_act_eq_ok {γ : Type} {action : Action γ} {next : γ → Script α} {r : α × Builder} :
    (act action next).run b = .ok r ↔
      ∃ x m, action.perform b = .ok (x, m) ∧ (next x).run m = .ok r := by
  rw [run, bind_eq_ok, Prod.exists]

theorem run_act_of_ok {γ : Type} {action : Action γ} {next : γ → Script α} {x : γ}
    (h : action.perform b = .ok (x, b')) : (act action next).run b = (next x).run b' := by
  rw [run, h]
  rfl

/-- A script that takes a value, where there is one. -/
theorem run_take {f : Fault} {next : Fragment → Script α} {e : Fragment} {rest : List Fragment}
    (h : b.stack = e :: rest) :
    (act (.take f) next).run b = (next e).run { b with stack := rest } :=
  run_act_of_ok (Builder.popExpr_eq_ok.mpr ⟨rest, h, rfl⟩)

/-- A script that pushes a value while the builder is open. -/
theorem run_push {e : Fragment} {next : Unit → Script α} (h : b.resolved = false) :
    (act (.push e) next).run b = (next ()).run { b with stack := e :: b.stack } :=
  run_act_of_ok (Action.silent_eq_ok.mpr (Builder.pushExpr_eq_ok.mpr ⟨h, rfl⟩))

theorem run_line {pieces : List Piece} {next : Unit → Script α} (h : b.line pieces = .ok b') :
    (act (.line pieces) next).run b = (next ()).run b' :=
  run_act_of_ok (Action.silent_eq_ok.mpr h)

/-- A script can be run in two parts. -/
theorem run_bind (s : Script α) (next : α → Script β) (b : Builder) :
    (s >>= next).run b = s.run b >>= fun r => (next r.1).run r.2 := by
  induction s generalizing b with
  | done a => rfl
  | fail f => rfl
  | act action rest ih =>
    show ((act action fun x => rest x >>= next).run b) = ((act action rest).run b >>= _)
    rw [run, run]
    cases action.perform b with
    | error f => rfl
    | ok r => exact ih r.1 r.2

/-! ## Actions of a script -/

/-- Every action that the script may perform has the property. -/
def All (P : {γ : Type} → Action γ → Prop) : Script α → Prop
  | done _ | fail _ => True
  | act action next => P action ∧ ∀ x, (next x).All P

variable {P : {γ : Type} → Action γ → Prop}

@[simp] theorem all_done (a : α) : (done a).All P := trivial

@[simp] theorem all_fail (f : Fault) : (fail f : Script α).All P := trivial

@[simp] theorem all_act {γ : Type} {action : Action γ} {next : γ → Script α} :
    (act action next).All P ↔ P action ∧ ∀ x, (next x).All P := Iff.rfl

@[simp] theorem all_ite {p : Prop} [Decidable p] {yes no : Script α} :
    (if p then yes else no).All P ↔ (p → yes.All P) ∧ (¬ p → no.All P) := by
  split <;> simp_all

/-- What holds of two scripts holds of one after the other. -/
theorem All.bind {next : α → Script β} (hs : s.All P) (hnext : ∀ a, (next a).All P) :
    (s >>= next).All P := by
  induction s with
  | done a => exact hnext a
  | fail f => trivial
  | act action rest ih => exact ⟨hs.1, fun x => ih x (hs.2 x)⟩

/-- Where a computation fails, no action is performed any more. -/
theorem all_ofExcept_bind {outcome : Except Fault α} {next : α → Script β}
    (h : ∀ a, outcome = .ok a → (next a).All P) : (ofExcept outcome >>= next).All P := by
  cases outcome with
  | error f => trivial
  | ok a => exact h a rfl

/-- A script relates the states before and after it, if its actions do. -/
theorem run_relates {R : Builder → Builder → Prop} (hrefl : ∀ b, R b b)
    (htrans : ∀ {b b' b''}, R b b' → R b' b'' → R b b'')
    (haction : ∀ {γ : Type} {action : Action γ} {b x b'}, P action →
      action.perform b = .ok (x, b') → R b b')
    {a : α} (hs : s.All P) (h : s.run b = .ok (a, b')) : R b b' := by
  induction s generalizing b with
  | done a =>
    obtain ⟨rfl, rfl⟩ := Prod.mk.inj (Except.ok.inj h)
    exact hrefl b
  | fail f => cases h
  | act action next ih =>
    obtain ⟨x, m, hm, h⟩ := run_act_eq_ok.mp h
    exact htrans (haction hs.1 hm) (ih x (hs.2 x) h)

end Script

/-! ## Actions of a call -/

namespace Builder

variable {b b' : Builder} {c : Call}

/-- A call succeeds exactly if its script runs through. -/
theorem step_eq_ok : b.step c = .ok b' ↔ (b.script c).run b = .ok ((), b') := by
  unfold step
  cases (b.script c).run b with
  | error f => simp [Except.map]
  | ok r =>
    obtain ⟨⟨⟩, m⟩ := r
    simp [Except.map]

/-- A call whose only action has no reply. -/
theorem step_of_silent {action : Action Unit} {outcome : Except Fault Builder}
    (hc : b.script c = Script.perform action) (h : action.perform b = Action.silent outcome) :
    b.step c = outcome := by
  rw [step, hc, Script.run, h]
  cases outcome <;> rfl

theorem step_defineFunc (f : Func) : b.step (.defineFunc f) = b.defineFunc f :=
  step_of_silent rfl rfl

theorem step_endFunc (f : Func) : b.step (.endFunc f) = b.endFunc f := step_of_silent rfl rfl

theorem step_startStmt (pos : Option SourcePos) : b.step (.startStmt pos) = b.startStmt :=
  step_of_silent rfl rfl

theorem step_endStmt (pos : Option SourcePos) (mark : Nat) :
    b.step (.endStmt pos mark) = b.endStmt pos mark := step_of_silent rfl rfl

/-- A constant is pushed as its text. -/
theorem step_push_eq_ok {v : Value} :
    b.step (.push v) = .ok b' ↔
      b.resolved = false ∧ { b with stack := .primary (literalText v) :: b.stack } = b' := by
  have hstep : b.step (.push v) = b.pushExpr (.primary (literalText v)) := step_of_silent rfl rfl
  rw [hstep, pushExpr_eq_ok]

theorem step_reserve_eq_ok :
    b.step .reserve = .ok b' ↔ b.resolved = false ∧
      { b with slots := b.slots.push none, stack := .slot b.slots.size :: b.stack } = b' := by
  have hstep : b.step .reserve = b.reserve := step_of_silent rfl rfl
  rw [hstep, reserve_eq_ok]

theorem step_fill_eq_ok {r : Reservation} {v : Value} :
    b.step (.fill r v) = .ok b' ↔ b.resolved = false ∧ r.builder = b.id ∧
      b.slots[r.position]? = some none ∧
      { b with slots := b.slots.setIfInBounds r.position (some (literalText v)) } = b' := by
  have hstep : b.step (.fill r v) = b.fill r v := step_of_silent rfl rfl
  rw [hstep, fill_eq_ok]

/-- The call may perform the action. Actions that are not listed may occur in any call. -/
def Performs (registry : Registry) (c : Call) {γ : Type} : Action γ → Prop
  | .spell t => t ∈ c.types
  | .qualify n => ∃ kind address, registry.native kind address = .ok n
  | .defineFunc f => c = .defineFunc f
  | .endFunc f => c = .endFunc f
  | .startStmt => ∃ pos, c = .startStmt pos
  | .endStmt pos mark => c = .endStmt pos mark
  | .reserve => c = .reserve
  | .fill r v => c = .fill r v
  | _ => True

open Script

/-- By induction on the bounds, of which each is taken from the stack or not. -/
theorem performs_sliceBounds (registry : Registry) (c : Call) (bounds : List Int) :
    (sliceBounds bounds).All (Performs registry c) := by
  induction bounds with
  | nil => trivial
  | cons i rest ih =>
    refine ih.bind fun bounds => ?_
    split
    · trivial
    · split
      · exact ⟨trivial, fun _ => trivial⟩
      · trivial

/-- A definition spells the types of its variables. -/
theorem performs_defineVar {registry : Registry} {vs : List Var} (hvs : ∀ v ∈ vs, v.ty ∈ c.types) :
    (vs.forM defineVar).All (Performs registry c) := by
  induction vs with
  | nil => trivial
  | cons v vs ih =>
    obtain ⟨hv, hvs⟩ := List.forall_mem_cons.mp hvs
    exact ⟨trivial, fun _ => ⟨hv, fun _ => ⟨trivial, fun _ => ih hvs⟩⟩⟩

theorem performs_collect (registry : Registry) (c : Call) (collectors : List Collector) :
    (collect collectors).All (Performs registry c) := by
  unfold collect
  split <;> simp [Performs]

/-- The actions of a call. -/
theorem performs_script (b : Builder) (c : Call) : (b.script c).All (Performs b.registry c) := by
  cases c with
  | push v | label l | jump l | defaultCase | loadVar v | addrVar v | pop n | defineFunc f
  | endFunc f | startStmt pos | endStmt pos mark | reserve | fill r v => simp [script, Performs]
  | builtinOp k op => cases op <;> simp [script, builtinOp, Performs]
  | jumpIf cond l => simp [script, jumpIf, Performs]
  | caseNe l arity => simp [script, caseNe, hoistTag, Performs]
  | forPhrase f key val hasContext => simp [script, forPhrase, openBlock, Performs]
  | filterForPhrase f => simp [script, filterForPhrase, openBlock, closeBlock, Performs]
  | endForPhrase f =>
    cases hf : b.fors.lookup f.id with
    | none => simp [script, endForPhrase, hf]
    | some depth =>
      have hclose : closeBlock.All (Performs b.registry (.endForPhrase f)) := by
        simp [closeBlock, Performs]
      have hcollect := (performs_collect b.registry (.endForPhrase f) b.collectors).bind
        fun _ => hclose
      simpa [script, endForPhrase, hf, closeBlock, Performs] using fun _ => hcollect
  | listComprehension d | mapComprehension d =>
    simp [script, startComprehension, Performs, Call.types]
  | endComprehension d =>
    cases hd : b.collectors <;> simp [script, endComprehension, hd, Performs]
  | closure f | nativeClosure f => simp [script, Script.closure, Performs]
  | callClosure n arity ellipsis | callNativeClosure n arity ellipsis =>
    simp [script, callClosure, Performs]
  | callFunc f n | callVariadicFunc f n arity => simp [script, callNamed, Performs]
  | callNative address n | callVariadicNative address n arity =>
    refine all_ofExcept_bind fun native hnative => ?_
    simpa [Performs] using ⟨_, address, hnative⟩
  | ret n => simp [script, ret, Performs]
  | load i | store i =>
    refine all_ofExcept_bind fun name _ => ?_
    simp [Script.store, Performs]
  | defineVar vs => exact performs_defineVar fun v hv => List.mem_map_of_mem hv
  | storeVar v => simp [script, Script.store, Performs]
  | addressOp k op => cases op <;> simp [script, addressOp, update, Performs]
  | append t arity => simp [script, append, callNamed, Performs]
  | makeArray t n => simp [script, makeArray, Performs, Call.types]
  | makeMap t n => simp [script, makeMap, Performs, Call.types]
  | make t n => simp [script, make, Performs, Call.types]
  | mapIndex | index i => simp [script, index, indexOperands, Performs]
  | setMapIndex | setIndex i => simp [script, setIndex, indexOperands, Performs]
  | slice i j | slice3 i j k =>
    exact (performs_sliceBounds _ _ _).bind fun _ => by simp [Performs]
  | cast source target => simp [script, Script.cast, Performs, Call.types]
  | builtin t f => simp [script, builtin, Performs]
  | zero t =>
    show (Script.zero t).All _
    unfold Script.zero
    split <;> simp [Performs, Call.types]

end Builder

end Source

end Lowering
