import Lowering.Proofs.Source.Packages
import Lowering.Proofs.Source.Slots

/-!
# What a call adds

A call that starts and ends neither a statement nor a body writes its lines behind those of the
innermost block, and leaves finished functions, function literals and the other blocks alone
(`grows_of_step`).

Calls give aliases to packages that had none. A call also writes the same if the aliases that it
gives were given before, as long as they are the same ones (`step_withAliases`). So what is written
does not depend on when a package was first referred to.

Both hold of every single action (`grows_of_perform`, `repeats_of_perform`), and therefore of
scripts.
-/

namespace Lowering

/-- Whether a call starts or ends a statement or a body. -/
def Call.delimits : Call → Bool
  | startStmt _ | endStmt _ _ | defineFunc _ | endFunc _ => true
  | _ => false

namespace Source

/-! ## Blocks -/

namespace Builder

variable {b b' b'' : Builder} {c : Call}

/-- The blocks of the open bodies, the innermost first, and then the top level. -/
def frames (b : Builder) : List Block := b.bodies.map (·.block) ++ [b.top]

/-- There is always an innermost block, if only that of the top level. -/
theorem frames_eq_cons (b : Builder) : b.frames = b.block :: b.frames.tail := by
  unfold frames block
  cases b.bodies <;> rfl

theorem block_of_frames {k : Block} {ks : List Block} (h : b.frames = k :: ks) : b.block = k :=
  (List.cons.inj (b.frames_eq_cons.symm.trans h)).1

/-- A change of the block is a change of the first frame. -/
theorem frames_setBlock (k : Block) : (b.setBlock k).frames = k :: b.frames.tail := by
  unfold frames setBlock
  cases b.bodies <;> rfl

/-- What has been written, apart from expressions. -/
structure Output where
  frames : List Block
  funcs : Array (List Line)
  closures : List (Nat × Fragment)
  stmts : Array StmtMark

def output (b : Builder) : Output := ⟨b.frames, b.funcs, b.closures, b.stmts⟩

theorem output_setBlock (k : Block) :
    (b.setBlock k).output = { b.output with frames := k :: b.frames.tail } := by
  unfold output
  rw [frames_setBlock]
  unfold setBlock
  cases b.bodies <;> rfl

/-- Lines are added to the innermost block, and nothing else is written. -/
structure Grows (b b' : Builder) : Prop where
  lines : b.block.lines.toList <+: b'.block.lines.toList
  output : b'.output = { b.output with frames := b'.block :: b.frames.tail }

/-- The blocks around are left alone. -/
theorem Grows.tail_frames (h : Grows b b') : b'.frames.tail = b.frames.tail :=
  congrArg (·.frames.tail) h.output

/-- Lines are appended one after the other. -/
theorem Grows.trans (h : Grows b b') (h' : Grows b' b'') : Grows b b'' where
  lines := h.lines.trans h'.lines
  output := by rw [h'.output, h.tail_frames, h.output]

/-- Nothing written at all is a case of growth. -/
theorem grows_of_output (h : b'.output = b.output) : Grows b b' := by
  have hframes : b'.frames = b.frames := congrArg Output.frames h
  have hblock : b'.block = b.block := block_of_frames (hframes.trans b.frames_eq_cons)
  refine ⟨hblock ▸ List.prefix_refl _, ?_⟩
  rw [h, hblock, ← frames_eq_cons]
  rfl

theorem Grows.refl (b : Builder) : Grows b b := grows_of_output rfl

/-- A block may get more lines, another depth and other variables. -/
theorem AddsLines.grows (h : AddsLines b b') : Grows b b' := by
  obtain ⟨k, hk, rfl⟩ := h
  exact ⟨by rwa [block_setBlock], by rw [output_setBlock, block_setBlock]⟩

/-! ## What actions write -/

/-- Actions write lines, unless they start or end something. -/
theorem grows_of_perform {registry : Registry} {γ : Type} {action : Action γ} {x : γ}
    (haction : Performs registry c action) (hc : c.delimits = false)
    (h : action.perform b = .ok (x, b')) : Grows b b' := by
  cases action with
  | defineFunc f | endFunc f | endStmt pos mark =>
    obtain rfl := haction
    cases hc
  | startStmt =>
    obtain ⟨pos, rfl⟩ := haction
    cases hc
  | line _ | discard _ | label _ | enter | leave | declare _ =>
    exact (addsLines_of_perform rfl h).grows
  | take f =>
    obtain ⟨rest, -, rfl⟩ := popExpr_eq_ok.mp h
    exact grows_of_output rfl
  | takeMany n =>
    obtain ⟨-, -, rfl⟩ := popMany_eq_ok.mp h
    exact grows_of_output rfl
  | push e =>
    obtain ⟨-, rfl⟩ := pushExpr_eq_ok.mp (Action.silent_eq_ok.mp h)
    exact grows_of_output rfl
  | spell t =>
    obtain ⟨parts, -, h⟩ := typeText_eq_ok.mp h
    obtain rfl := congrArg Prod.snd h
    exact grows_of_output rfl
  | qualify n =>
    obtain rfl := congrArg Prod.snd (Except.ok.inj h)
    refine grows_of_output ?_
    unfold qualified
    split <;> rfl
  | name stem | openFor id | closeFor id | setCollectors collectors =>
    obtain rfl := congrArg Prod.snd (Except.ok.inj h)
    exact grows_of_output rfl
  | reserve =>
    obtain ⟨-, rfl⟩ := reserve_eq_ok.mp (Action.silent_eq_ok.mp h)
    exact grows_of_output rfl
  | fill r v =>
    obtain ⟨-, -, -, rfl⟩ := fill_eq_ok.mp (Action.silent_eq_ok.mp h)
    exact grows_of_output rfl

/-- Calls write lines, unless they start or end something. -/
theorem grows_of_step (hc : c.delimits = false) (h : b.step c = .ok b') : Grows b b' :=
  Script.run_relates .refl .trans (fun haction h => grows_of_perform haction hc h)
    (performs_script b c) (step_eq_ok.mp h)

/-! ## Statements and bodies -/

/-- What is left of a statement is written in its block. -/
theorem grows_discardLeft {mark : Nat} {state : StmtMark} (h : b.discardLeft mark state = .ok b') :
    Grows { b with stmts := b.stmts.take mark } b' := by
  rw [discardLeft_eq] at h
  have hgrows := (addsLines_discardAll h).grows
  exact ⟨hgrows.lines, hgrows.output⟩

/-- The options say whether there are directives, so they must not change here. -/
theorem options_discardLeft {mark : Nat} {state : StmtMark}
    (h : b.discardLeft mark state = .ok b') : b'.options = b.options :=
  congrArg Fixed.options (fixed_discardLeft h)

/-- A directive changes the innermost block only. -/
theorem output_placeDirective (pos : Option SourcePos) (line : Nat) :
    (b.placeDirective pos line).output =
      { b.output with frames := (b.placeDirective pos line).block :: b.frames.tail } := by
  obtain ⟨k, hk⟩ := b.exists_placeDirective pos line
  rw [← hk, output_setBlock, block_setBlock]

/-- The start of a body puts a new block on top. -/
theorem output_defineFunc {f : Func} (h : b.step (.defineFunc f) = .ok b') :
    b'.output = { b.output with frames := b'.block :: b.frames } := by
  rw [step_defineFunc] at h
  obtain ⟨-, -, rfl⟩ := defineFunc_eq_ok.mp h
  rfl

/-- An ended function is stored apart from the open blocks. -/
theorem output_addFunc (f : Func) (lines : List Line) (signature : String) :
    (b.addFunc f lines signature).output =
      { b.output with
        funcs := (b.addFunc f lines signature).funcs
        closures := (b.addFunc f lines signature).closures } := by
  unfold addFunc
  split <;> rfl

/-- The end of a body takes its block away. -/
theorem output_endFunc {f : Func} (h : b.step (.endFunc f) = .ok b') :
    b'.output =
      { b.output with frames := b.frames.tail, funcs := b'.funcs, closures := b'.closures } := by
  rw [step_endFunc] at h
  obtain ⟨-, body, outer, parts, hbodies, -, -, rfl⟩ := endFunc_eq_ok.mp h
  rw [output_addFunc]
  have hframes : b.frames.tail = outer.map (·.block) ++ [b.top] := by
    rw [frames, hbodies]
    rfl
  rw [hframes]
  rfl

/-! ## Other tables of aliases -/

/-- The builder with another table of aliases. -/
def withAliases (b : Builder) (m : Imports) : Builder := { b with imports := m }

section

variable {m : Imports} {allowed : String → Prop}

theorem imports_setBlock (k : Block) : (b.setBlock k).imports = b.imports := by
  unfold setBlock
  cases b.bodies <;> rfl

/-- Blocks and aliases are changed independently of each other. -/
theorem withAliases_setBlock (m : Imports) (k : Block) :
    (b.withAliases m).setBlock k = (b.setBlock k).withAliases m := by
  unfold setBlock withAliases
  cases b.bodies <;> rfl

theorem imports_placeDirective (pos : Option SourcePos) (line : Nat) :
    (b.placeDirective pos line).imports = b.imports := by
  obtain ⟨k, hk⟩ := b.exists_placeDirective pos line
  rw [← hk, imports_setBlock]

/-- A directive does not depend on aliases. -/
theorem withAliases_placeDirective (pos : Option SourcePos) (line : Nat) :
    (b.withAliases m).placeDirective pos line = (b.placeDirective pos line).withAliases m := by
  have hoptions : (b.withAliases m).options = b.options := rfl
  unfold placeDirective
  rw [hoptions]
  cases pos with
  | none => rfl
  | some pos =>
    cases b.options.lineDirectives with
    | false => rfl
    | true => exact withAliases_setBlock m _

theorem imports_addFunc (f : Func) (lines : List Line) (signature : String) :
    (b.addFunc f lines signature).imports = b.imports := by
  unfold addFunc
  split <;> rfl

/-- A function is stored in the same way whatever the aliases are: its lines and its signature are
texts by then. -/
theorem withAliases_addFunc (f : Func) (lines : List Line) (signature : String) :
    (b.withAliases m).addFunc f lines signature = (b.addFunc f lines signature).withAliases m := by
  unfold addFunc
  split <;> rfl

/-- A line does not depend on aliases. -/
theorem line_withAliases {pieces : List Piece} (h : b.line pieces = .ok b') (m : Imports) :
    (b.withAliases m).line pieces = .ok (b'.withAliases m) := by
  obtain ⟨hopen, rfl⟩ := line_eq_ok.mp h
  exact line_eq_ok.mpr ⟨hopen, withAliases_setBlock m _⟩

theorem imports_discardAll {es : List Fragment} (h : b.discardAll es = .ok b') :
    b'.imports = b.imports :=
  (addsLines_discardAll h).unchanged fun _ => imports_setBlock

/-- Values that are discarded were texts before. -/
theorem discardAll_withAliases {es : List Fragment} (h : b.discardAll es = .ok b') (m : Imports) :
    (b.withAliases m).discardAll es = .ok (b'.withAliases m) := by
  induction es generalizing b with
  | nil =>
    obtain rfl := Except.ok.inj h
    rfl
  | cons e es ih =>
    obtain ⟨r, hr, h⟩ := bind_eq_ok.mp h
    refine bind_eq_ok.mpr ⟨r.withAliases m, ?_, ih h⟩
    unfold discard at hr ⊢
    by_cases hcall : e.isCall = true
    · rw [if_pos hcall] at hr ⊢
      exact line_withAliases hr m
    · rw [if_neg hcall] at hr ⊢
      exact line_withAliases hr m

/-- A type gets the same text from a table that has its aliases already. -/
theorem resolveParts_withAliases {parts : List TypePart}
    (hm : (b.resolveParts parts).2.imports.entries <+: m.entries) :
    (b.withAliases m).resolveParts parts =
      ((b.resolveParts parts).1, (b.resolveParts parts).2.withAliases m) := by
  have hresolve : m.resolve parts = ((b.imports.resolve parts).1, m) :=
    Imports.resolve_mono hm
  unfold resolveParts
  rw [show (b.withAliases m).imports = m from rfl, hresolve]
  rfl

/-- A symbol gets the same name from a table that has its alias already. -/
theorem qualified_withAliases {n : Native}
    (hm : (b.qualified n).2.imports.entries <+: m.entries) :
    (b.withAliases m).qualified n = ((b.qualified n).1, (b.qualified n).2.withAliases m) := by
  unfold qualified at hm ⊢
  by_cases hempty : n.pkgPath.isEmpty
  · rw [if_pos hempty, if_pos hempty]
  · rw [if_neg hempty] at hm ⊢
    rw [if_neg hempty]
    obtain ⟨name, hname⟩ := b.imports.exists_lookup_add n.pkgPath
    have hname' : m.entries.lookup n.pkgPath = some name := Imports.lookup_mono hm hname
    have hadd : (b.withAliases m).imports.add n.pkgPath = m := Imports.add_of_lookup hname'
    have halias : m.aliasOf n.pkgPath = (b.imports.add n.pkgPath).aliasOf n.pkgPath := by
      rw [Imports.aliasOf, Imports.aliasOf, hname, hname']
    dsimp only
    rw [hadd, halias]
    rfl

/-! ## Aliases along a step -/

/-- What a call and the natives of the registry refer to is allowed. -/
structure Permits (allowed : String → Prop) (registry : Registry) (c : Call) : Prop where
  pointer : allowed "unsafe"
  natives : ∀ kind address n, registry.native kind address = .ok n → allowed n.pkgPath
  types : ∀ t ∈ c.types, ∀ p ∈ t.packages, allowed p

theorem permits_true (registry : Registry) (c : Call) : Permits (fun _ => True) registry c :=
  ⟨trivial, fun _ _ _ _ => trivial, fun _ _ _ _ => trivial⟩

/-- A computation gives aliases to packages that are allowed. With a table that has these aliases it
does the same. -/
structure Repeats {γ : Type} (allowed : String → Prop)
    (compute : Builder → Except Fault (γ × Builder)) (b : Builder) (x : γ) (b' : Builder) :
    Prop where
  imports : b.imports.Grows allowed b'.imports
  again : ∀ m : Imports, b'.imports.entries <+: m.entries →
    compute (b.withAliases m) = .ok (x, b'.withAliases m)

/-- A computation that gives no alias. -/
theorem repeats_of_imports {γ : Type} {compute : Builder → Except Fault (γ × Builder)} {x : γ}
    (himports : b'.imports = b.imports)
    (h : ∀ m, compute (b.withAliases m) = .ok (x, b'.withAliases m)) :
    Repeats allowed compute b x b' :=
  ⟨himports ▸ .refl, fun m _ => h m⟩

/-- A symbol adds its own package at most. -/
theorem grows_qualified {n : Native} (h : allowed n.pkgPath) :
    b.imports.Grows allowed (b.qualified n).2.imports := by
  unfold qualified
  split
  · exact .refl
  · exact ⟨[n.pkgPath], by simpa using h, rfl⟩

/-- Actions that write do not look at aliases. -/
theorem perform_withAliases {γ : Type} {action : Action γ} {x : γ}
    (hwrites : action.writes = true) (h : action.perform b = .ok (x, b')) (m : Imports) :
    action.perform (b.withAliases m) = .ok (x, b'.withAliases m) := by
  cases action with
  | line pieces => exact Action.silent_eq_ok.mpr (line_withAliases (Action.silent_eq_ok.mp h) m)
  | discard es =>
    exact Action.silent_eq_ok.mpr (discardAll_withAliases (Action.silent_eq_ok.mp h) m)
  | label l =>
    obtain ⟨hopen, rfl⟩ := label_eq_ok.mp (Action.silent_eq_ok.mp h)
    exact Action.silent_eq_ok.mpr (label_eq_ok.mpr ⟨hopen, withAliases_setBlock m _⟩)
  | enter =>
    obtain rfl := congrArg Prod.snd (Except.ok.inj h)
    exact congrArg (fun b => Except.ok ((), b)) (withAliases_setBlock m _)
  | leave =>
    obtain ⟨depth, hdepth, rfl⟩ := leaveBlock_eq_ok.mp (Action.silent_eq_ok.mp h)
    exact Action.silent_eq_ok.mpr (leaveBlock_eq_ok.mpr ⟨depth, hdepth, withAliases_setBlock m _⟩)
  | declare v =>
    obtain ⟨hnew, rfl⟩ := declare_eq_ok.mp (Action.silent_eq_ok.mp h)
    exact Action.silent_eq_ok.mpr (declare_eq_ok.mpr ⟨hnew, withAliases_setBlock m _⟩)
  | _ => cases hwrites

/-- The end of a function gives aliases to the packages of its signature. -/
theorem repeats_endFunc {registry : Registry} {f : Func} {x : Unit}
    (hp : Permits allowed registry (.endFunc f))
    (h : (Action.endFunc f).perform b = .ok (x, b')) :
    Repeats allowed (Action.endFunc f).perform b x b' := by
  obtain ⟨hopen, body, outer, parts, hbodies, hid, hparts, hb'⟩ :=
    endFunc_eq_ok.mp (Action.silent_eq_ok.mp h)
  obtain rfl : _ = b' := hb'
  have hwithin := ensures_spellSignature hp.pointer hp.types parts hparts
  constructor
  · rw [imports_addFunc]
    exact ⟨_, hwithin, rfl⟩
  · intro m hm
    rw [imports_addFunc] at hm
    refine Action.silent_eq_ok.mpr (endFunc_eq_ok.mpr ⟨hopen, ?_⟩)
    refine ⟨body, outer, parts, hbodies, hid, hparts, ?_⟩
    rw [← withAliases_addFunc]
    exact congrArg (fun spelled => spelled.2.addFunc f body.block.lines.toList spelled.1)
      (resolveParts_withAliases hm)

/-- The end of a statement gives none, as what it writes has been spelled before. -/
theorem repeats_endStmt {pos : Option SourcePos} {mark : Nat} {x : Unit}
    (h : (Action.endStmt pos mark).perform b = .ok (x, b')) :
    Repeats allowed (Action.endStmt pos mark).perform b x b' := by
  obtain ⟨hopen, state, r, hstate, hleft, hb'⟩ := endStmt_eq_ok.mp (Action.silent_eq_ok.mp h)
  obtain rfl : _ = b' := hb'
  rw [discardLeft_eq] at hleft
  have himports := imports_discardAll hleft
  refine repeats_of_imports ((imports_placeDirective _ _).trans himports)
    fun m => Action.silent_eq_ok.mpr (endStmt_eq_ok.mpr ⟨hopen, state, r.withAliases m, hstate,
      ?_, withAliases_placeDirective pos state.line⟩)
  rw [discardLeft_eq]
  exact discardAll_withAliases hleft m

/-- Only three actions give aliases: spelling a type, naming a symbol, and the end of a function,
whose signature is spelled. All the others do not look at them. -/
theorem repeats_of_perform {registry : Registry} {γ : Type} {action : Action γ} {x : γ}
    (haction : Performs registry c action) (hp : Permits allowed registry c)
    (h : action.perform b = .ok (x, b')) : Repeats allowed action.perform b x b' := by
  cases action with
  | take f =>
    obtain ⟨rest, hstack, rfl⟩ := popExpr_eq_ok.mp h
    exact repeats_of_imports rfl fun m => popExpr_eq_ok.mpr ⟨rest, hstack, rfl⟩
  | takeMany n =>
    obtain ⟨hn, rfl, rfl⟩ := popMany_eq_ok.mp h
    exact repeats_of_imports rfl fun m => popMany_eq_ok.mpr ⟨hn, rfl, rfl⟩
  | push e =>
    obtain ⟨hopen, rfl⟩ := pushExpr_eq_ok.mp (Action.silent_eq_ok.mp h)
    exact repeats_of_imports rfl fun m => Action.silent_eq_ok.mpr (pushExpr_eq_ok.mpr ⟨hopen, rfl⟩)
  | line _ | discard _ | label _ | enter | leave | declare _ =>
    exact repeats_of_imports
      ((addsLines_of_perform rfl h).unchanged fun _ => imports_setBlock) (perform_withAliases rfl h)
  | spell t =>
    obtain ⟨parts, hparts, h⟩ := typeText_eq_ok.mp h
    obtain ⟨rfl, rfl⟩ := Prod.mk.inj h
    exact ⟨⟨_, ensures_spell hp.pointer t (hp.types t haction) parts hparts, rfl⟩, fun m hm =>
      typeText_eq_ok.mpr ⟨parts, hparts, resolveParts_withAliases hm⟩⟩
  | qualify n =>
    obtain ⟨kind, address, hn⟩ := haction
    obtain ⟨rfl, rfl⟩ := Prod.mk.inj (Except.ok.inj h)
    exact ⟨grows_qualified (hp.natives kind address n hn), fun m hm =>
      congrArg Except.ok (qualified_withAliases hm)⟩
  | name stem | openFor id | closeFor id | setCollectors collectors =>
    obtain ⟨rfl, rfl⟩ := Prod.mk.inj (Except.ok.inj h)
    exact repeats_of_imports rfl fun m => rfl
  | defineFunc f =>
    obtain ⟨hopen, hany, rfl⟩ := defineFunc_eq_ok.mp (Action.silent_eq_ok.mp h)
    exact repeats_of_imports rfl fun m =>
      Action.silent_eq_ok.mpr (defineFunc_eq_ok.mpr ⟨hopen, hany, rfl⟩)
  | endFunc f =>
    obtain rfl := haction
    exact repeats_endFunc hp h
  | startStmt =>
    obtain ⟨hopen, rfl⟩ := startStmt_eq_ok.mp (Action.silent_eq_ok.mp h)
    exact repeats_of_imports rfl fun m =>
      Action.silent_eq_ok.mpr (startStmt_eq_ok.mpr ⟨hopen, rfl⟩)
  | endStmt pos mark => exact repeats_endStmt h
  | reserve =>
    obtain ⟨hopen, rfl⟩ := reserve_eq_ok.mp (Action.silent_eq_ok.mp h)
    exact repeats_of_imports rfl fun m => Action.silent_eq_ok.mpr (reserve_eq_ok.mpr ⟨hopen, rfl⟩)
  | fill r v =>
    obtain ⟨hopen, hr, hempty, rfl⟩ := fill_eq_ok.mp (Action.silent_eq_ok.mp h)
    exact repeats_of_imports rfl fun m =>
      Action.silent_eq_ok.mpr (fill_eq_ok.mpr ⟨hopen, hr, hempty, rfl⟩)

/-- By induction on the script: the aliases of the rest are there from the start, and with them
those of the first action. -/
theorem repeats_run {α : Type} {s : Script α} {registry : Registry} {a : α}
    (hs : s.All (Performs registry c)) (hp : Permits allowed registry c)
    (h : s.run b = .ok (a, b')) : Repeats allowed s.run b a b' := by
  induction s generalizing b with
  | done a =>
    obtain ⟨rfl, rfl⟩ := Prod.mk.inj (Except.ok.inj h)
    exact repeats_of_imports rfl fun m => rfl
  | fail f => cases h
  | act action next ih =>
    obtain ⟨x, r, hr, h⟩ := Script.run_act_eq_ok.mp h
    have hfirst := repeats_of_perform hs.1 hp hr
    have hrest := ih x (hs.2 x) h
    refine ⟨hfirst.imports.trans hrest.imports, fun m hm => ?_⟩
    exact Script.run_act_eq_ok.mpr
      ⟨x, r.withAliases m, hfirst.again m (hrest.imports.entries.trans hm), hrest.again m hm⟩

/-- A call gives aliases to packages that it is allowed to refer to. With a table that has these
aliases it does the same. -/
theorem step_withAliases (hp : Permits allowed b.registry c) (h : b.step c = .ok b') :
    b.imports.Grows allowed b'.imports ∧ ∀ m : Imports, b'.imports.entries <+: m.entries →
      (b.withAliases m).step c = .ok (b'.withAliases m) := by
  have hrun := repeats_run (performs_script b c) hp (step_eq_ok.mp h)
  refine ⟨hrun.imports, fun m hm => step_eq_ok.mpr ?_⟩
  -- Which actions a call performs does not depend on aliases.
  have hscript : (b.withAliases m).script c = b.script c := by
    cases c <;> rfl
  rw [hscript]
  exact hrun.again m hm

end

end Builder

end Source

end Lowering
