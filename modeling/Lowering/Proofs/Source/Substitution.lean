import Lowering.Proofs.Source.Script

/-!
# Substitution for slots

A substitution puts a piece, text or another slot, in the place of every slot. It acts on fragments,
on lines and on the whole state of the source backend, whose remaining slots it replaces as well.

No call looks into a fragment, so it makes no difference whether a substitution comes before a call
or after it: `step_subst`. There are exceptions. Reserving and filling are about the slots
themselves, and following an address reads the text of the address, so there a slot must stay a
slot.

An action on the substituted state replies with what the action replies on the state itself,
substituted (`perform_subst`). `Image` follows two scripts whose actions correspond to each other in
this way, so that their runs do (`Image.run`), and the scripts of a call before and after a
substitution are two such scripts (`image_script`).
-/

namespace Lowering.Source

/-! ## Mirrored computations -/

/-- The one computation does what the other does, seen through `f`. -/
abbrev Mirrors {ε α β : Type} (f : α → β) (image : Except ε β) (origin : Except ε α) : Prop :=
  image = origin.map f

section Mirrors

variable {ε α β γ δ : Type} {f : α → β} {g : γ → δ} {a : α} {e : ε}

/-- A result on the one side is the image of a result on the other. -/
theorem mirrors_ok {b : β} (h : b = f a) : Mirrors f (.ok b : Except ε β) (.ok a) := by
  rw [h]
  rfl

/-- Faults have no image: they stay what they are. -/
theorem mirrors_error : Mirrors f (.error e) (.error e) := rfl

/-- One computation after another is mirrored if both are, the second one from every result of the
first. -/
theorem Mirrors.bind {image : Except ε β} {origin : Except ε α} {next' : β → Except ε δ}
    {next : α → Except ε γ} (h : Mirrors f image origin)
    (hnext : ∀ a, Mirrors g (next' (f a)) (next a)) :
    Mirrors g (image >>= next') (origin >>= next) := by
  cases h
  cases origin with
  | error e => rfl
  | ok a => exact hnext a

/-- A computation that is the same on both sides. -/
theorem mirrors_bind {first : Except ε α} {next' : α → Except ε δ} {next : α → Except ε γ}
    (hnext : ∀ a, Mirrors g (next' a) (next a)) :
    Mirrors g (first >>= next') (first >>= next) := by
  cases first with
  | error e => rfl
  | ok a => exact hnext a

/-- A test may be put in other words on the one side, as long as it decides the same. -/
theorem mirrors_ite {p q : Prop} [Decidable p] [Decidable q] (hpq : p ↔ q)
    {yes' no' : Except ε β} {yes no : Except ε α} (hyes : Mirrors f yes' yes)
    (hno : Mirrors f no' no) :
    Mirrors f (if p then yes' else no') (if q then yes else no) := by
  by_cases hp : p
  · rw [if_pos hp, if_pos (hpq.mp hp)]
    exact hyes
  · rw [if_neg hp, if_neg (hp ∘ hpq.mpr)]
    exact hno

/-- A loop whose rounds are mirrored. -/
theorem mirrors_foldlM {ι κ : Type} {step' : β → κ → Except ε β} {step : α → ι → Except ε α}
    {h : ι → κ} (hstep : ∀ a i, Mirrors f (step' (f a) (h i)) (step a i)) (xs : List ι) (a : α) :
    Mirrors f ((xs.map h).foldlM step' (f a)) (xs.foldlM step a) := by
  induction xs generalizing a with
  | nil => exact mirrors_ok rfl
  | cons x xs ih => exact (hstep a x).bind ih

/-- Where the image succeeds the other side has succeeded. -/
theorem Mirrors.exists_ok {image : Except ε β} {origin : Except ε α} {out : β}
    (h : Mirrors f image origin) (hout : image = .ok out) : ∃ a, origin = .ok a ∧ f a = out := by
  rw [h] at hout
  cases origin with
  | error e => cases hout
  | ok a => exact ⟨a, rfl, Except.ok.inj hout⟩

end Mirrors

/-! ## Substitutions -/

/-- What takes the place of every slot, and the builder to which the remaining slots belong. -/
structure Substitution where
  piece : Nat → Piece
  id : Nat
  slots : Array (Option String)

variable (σ : Substitution)

def Piece.subst : Piece → Piece
  | text s => text s
  | slot i => σ.piece i

def Fragment.subst (e : Fragment) : Fragment := { e with pieces := e.pieces.map (·.subst σ) }

def Line.subst (l : Line) : Line := { l with pieces := l.pieces.map (·.subst σ) }

def Block.subst (k : Block) : Block := { k with lines := k.lines.map (·.subst σ) }

def Body.subst (body : Body) : Body := { body with block := body.block.subst σ }

/-- The state with everything in it substituted. -/
def Builder.subst (b : Builder) : Builder :=
  { b with
    id := σ.id
    slots := σ.slots
    stack := b.stack.map (·.subst σ)
    top := b.top.subst σ
    bodies := b.bodies.map (·.subst σ)
    funcs := b.funcs.map (·.map (·.subst σ))
    closures := b.closures.map fun p => (p.1, p.2.subst σ) }

/-! ## Fragments -/

namespace Fragment

@[simp] theorem subst_text (s : String) : Piece.subst σ (.text s) = .text s := rfl

@[simp] theorem subst_mk (pieces : List Piece) (precedence : Nat) (isCall : Bool) :
    Fragment.subst σ ⟨pieces, precedence, isCall⟩ =
      ⟨pieces.map (·.subst σ), precedence, isCall⟩ := rfl

@[simp] theorem pieces_subst (e : Fragment) :
    (e.subst σ).pieces = e.pieces.map (·.subst σ) := rfl

@[simp] theorem primary_subst (s : String) : (primary s).subst σ = primary s := rfl

@[simp] theorem isCall_subst (e : Fragment) : (e.subst σ).isCall = e.isCall := rfl

/-- Whether an expression is simple is said by its form, so a slot in it does not matter. -/
@[simp] theorem isSimple_subst (e : Fragment) : (e.subst σ).isSimple = e.isSimple := rfl

/-- Parentheses depend on the precedence only. -/
@[simp] theorem asOperand_subst (e : Fragment) (least : Nat) :
    (e.subst σ).asOperand least = (e.asOperand least).map (·.subst σ) := by
  unfold asOperand
  show (if e.precedence < least then _ else _) = _
  split <;> simp

/-- Fragments are put together from their pieces and from fixed text. The same holds of all the
forms below. -/
@[simp] theorem commaList_subst (es : List Fragment) :
    commaList (es.map (·.subst σ)) = (commaList es).map (·.subst σ) := by
  fun_induction commaList es with
  | case1 => rfl
  | case2 e => rfl
  | case3 e rest hrest ih =>
    cases rest with
    | nil => exact absurd rfl hrest
    | cons e' rest => simpa [commaList] using ih

@[simp] theorem entryList_subst (es : List Fragment) :
    entryList (es.map (·.subst σ)) = (entryList es).map (·.subst σ) := by
  fun_induction entryList es with
  | case1 key val => simp [entryList]
  | case2 key val rest hrest ih =>
    cases rest with
    | nil => exact absurd rfl hrest
    | cons e rest => simpa [entryList] using ih
  | case3 es hone hmore =>
    rcases es with _ | ⟨e, _ | ⟨e', es⟩⟩
    · rfl
    · rfl
    · exact absurd rfl (hmore e e' es)

@[simp] theorem colonList_subst (bounds : List (Option Fragment)) :
    colonList (bounds.map (·.map (·.subst σ))) = (colonList bounds).map (·.subst σ) := by
  have helim : ∀ b : Option Fragment,
      (b.map (·.subst σ)).elim [] (·.pieces) = (b.elim [] (·.pieces)).map (·.subst σ) := by
    intro b
    cases b <;> rfl
  fun_induction colonList bounds with
  | case1 => rfl
  | case2 b => exact helim b
  | case3 b rest hrest ih =>
    cases rest with
    | nil => exact absurd rfl hrest
    | cons b' rest => simpa [colonList, helim] using ih

@[simp] theorem unary_subst (op : String) (x : Fragment) :
    (unary op x).subst σ = unary op (x.subst σ) := by
  simp [unary]

@[simp] theorem binary_subst (x : Fragment) (op : String) (y : Fragment) (precedence : Nat) :
    (binary x op y precedence).subst σ = binary (x.subst σ) op (y.subst σ) precedence := by
  simp [binary]

@[simp] theorem call_subst (head : Fragment) (args : List Fragment) (ellipsis : Bool) :
    (call head args ellipsis).subst σ = call (head.subst σ) (args.map (·.subst σ)) ellipsis := by
  cases ellipsis <;> simp [call]

@[simp] theorem index_subst (x i : Fragment) :
    (index x i).subst σ = index (x.subst σ) (i.subst σ) := by
  simp [index]

@[simp] theorem slice_subst (x : Fragment) (bounds : List (Option Fragment)) :
    (slice x bounds).subst σ = slice (x.subst σ) (bounds.map (·.map (·.subst σ))) := by
  simp [slice]

@[simp] theorem listLiteral_subst (type : String) (elements : List Fragment) :
    (listLiteral type elements).subst σ = listLiteral type (elements.map (·.subst σ)) := by
  simp [listLiteral]

@[simp] theorem mapLiteral_subst (type : String) (items : List Fragment) :
    (mapLiteral type items).subst σ = mapLiteral type (items.map (·.subst σ)) := by
  simp [mapLiteral]

@[simp] theorem conversion_subst (type : String) (x : Fragment) :
    (conversion type x).subst σ = conversion type (x.subst σ) := by
  simp [conversion]

@[simp] theorem address_subst (name : String) : (address name).subst σ = address name := rfl

/-- Every slot of the fragment stays a slot. -/
def KeepsSlots (e : Fragment) : Prop := ∀ i, .slot i ∈ e.pieces → ∃ j, σ.piece i = .slot j

/-- A text with a slot in it is no plain text, as long as the slot stays one. -/
theorem plainText?_subst {pieces : List Piece}
    (h : ∀ i, .slot i ∈ pieces → ∃ j, σ.piece i = .slot j) :
    Piece.plainText? (pieces.map (·.subst σ)) = Piece.plainText? pieces := by
  induction pieces with
  | nil => rfl
  | cons piece rest ih =>
    cases piece with
    | text s =>
      have hrest := ih fun i hi => h i (List.mem_cons_of_mem _ hi)
      simp [Piece.plainText?, hrest]
    | slot i =>
      obtain ⟨j, hj⟩ := h i List.mem_cons_self
      simp [Piece.plainText?, Piece.subst, hj]

/-- This is the one form that reads its operand: the mark of an address is taken off its text. -/
theorem dereference_subst {e : Fragment} (h : e.KeepsSlots σ) :
    (e.subst σ).dereference = e.dereference.subst σ := by
  unfold dereference
  rw [pieces_subst, plainText?_subst σ h]
  split
  · rfl
  · exact (unary_subst σ "*" e).symm

end Fragment

/-! ## Actions -/

namespace Builder

variable {σ} {b : Builder}

/-- The innermost block is substituted with the rest. -/
theorem block_subst : (b.subst σ).block = b.block.subst σ := by
  unfold block subst
  cases b.bodies <;> rfl

/-- A block may be substituted before it is put in its place. -/
theorem setBlock_subst (k : Block) :
    (b.subst σ).setBlock (k.subst σ) = (b.setBlock k).subst σ := by
  unfold setBlock subst
  cases b.bodies <;> rfl

/-- The depth of a line is no piece of it. -/
theorem mirrors_line {pieces' pieces : List Piece} (h : pieces' = pieces.map (·.subst σ)) :
    Mirrors (subst σ) ((b.subst σ).line pieces') (b.line pieces) := by
  refine mirrors_bind fun _ => mirrors_ok ?_
  rw [block_subst, ← setBlock_subst, h]
  simp [Block.subst, Line.subst]

theorem mirrors_pushExpr (e : Fragment) :
    Mirrors (subst σ) ((b.subst σ).pushExpr (e.subst σ)) (b.pushExpr e) :=
  mirrors_bind fun _ => mirrors_ok rfl

/-- Whether there is a value does not depend on what it is. -/
theorem mirrors_popExpr (f : Fault) :
    Mirrors (Prod.map (·.subst σ) (subst σ)) ((b.subst σ).popExpr f) (b.popExpr f) := by
  unfold popExpr subst
  cases b.stack <;> rfl

/-- The values come off in the same order. -/
theorem mirrors_popMany (n : Nat) :
    Mirrors (Prod.map (·.map (·.subst σ)) (subst σ)) ((b.subst σ).popMany n) (b.popMany n) := by
  unfold popMany
  have hlength : (b.subst σ).stack.length = b.stack.length := List.length_map _
  rw [hlength]
  refine mirrors_ite Iff.rfl mirrors_error (mirrors_ok ?_)
  simp [subst]

theorem mirrors_discard (e : Fragment) :
    Mirrors (subst σ) ((b.subst σ).discard (e.subst σ)) (b.discard e) :=
  mirrors_ite Iff.rfl (mirrors_line rfl) (mirrors_line rfl)

theorem mirrors_discardAll (es : List Fragment) :
    Mirrors (subst σ) ((b.subst σ).discardAll (es.map (·.subst σ))) (b.discardAll es) :=
  mirrors_foldlM (fun _ e => mirrors_discard e) es b

/-- Aliases are given to paths, in which there are no slots. -/
theorem qualified_subst (n : Native) :
    (b.subst σ).qualified n = ((b.qualified n).1, (b.qualified n).2.subst σ) := by
  unfold qualified
  split <;> rfl

/-- The text of a type has no slots in it. -/
theorem mirrors_typeText (t : Ty) :
    Mirrors (fun r => (r.1, r.2.subst σ)) ((b.subst σ).typeText t) (b.typeText t) :=
  mirrors_bind fun _ => mirrors_ok rfl

theorem mirrors_label (l : Label) : Mirrors (subst σ) ((b.subst σ).label l) (b.label l) := by
  refine mirrors_bind fun _ => mirrors_ok ?_
  rw [block_subst, ← setBlock_subst]
  simp [Block.subst, Line.subst]

theorem enterBlock_subst : (b.subst σ).enterBlock = b.enterBlock.subst σ := by
  unfold enterBlock
  rw [block_subst, ← setBlock_subst]
  rfl

/-- The depth of a block stays the same. -/
theorem mirrors_leaveBlock : Mirrors (subst σ) (b.subst σ).leaveBlock b.leaveBlock := by
  have hdepth : (b.subst σ).block.depth = b.block.depth := by
    rw [block_subst]
    rfl
  unfold leaveBlock
  rw [hdepth]
  cases b.block.depth with
  | zero => exact mirrors_error
  | succ depth =>
    refine mirrors_ok ?_
    rw [block_subst, ← setBlock_subst]
    rfl

/-- Variables are known by their names. -/
theorem mirrors_declare (v : Var) : Mirrors (subst σ) ((b.subst σ).declare v) (b.declare v) := by
  unfold declare
  rw [block_subst]
  refine mirrors_ite Iff.rfl mirrors_error (mirrors_ok ?_)
  rw [← setBlock_subst]
  rfl

/-- Whether a function is open is not a matter of its lines. -/
theorem mirrors_defineFunc (f : Func) :
    Mirrors (subst σ) ((b.subst σ).defineFunc f) (b.defineFunc f) := by
  have hopen : (b.subst σ).bodies.any (·.func.id == f.id) = b.bodies.any (·.func.id == f.id) := by
    show (b.bodies.map (·.subst σ)).any _ = _
    rw [List.any_map]
    rfl
  unfold defineFunc
  rw [hopen]
  refine mirrors_bind fun _ => mirrors_ite Iff.rfl mirrors_error (mirrors_ok ?_)
  simp [subst, Body.subst, Block.subst]

/-- A function literal is put together line by line, with breaks and indentation between the
lines. -/
theorem literalPieces_subst (outer : Nat) (signature : String) (lines : List Line) :
    literalPieces outer signature (lines.map (·.subst σ)) =
      (literalPieces outer signature lines).map (·.subst σ) := by
  simp [literalPieces, List.flatMap_map, List.map_flatMap, Line.subst]

/-- The body becomes a declaration or a literal, of which both carry the slots of its lines. -/
theorem mirrors_endFunc (f : Func) :
    Mirrors (subst σ) ((b.subst σ).endFunc f) (b.endFunc f) := by
  unfold endFunc
  refine mirrors_bind fun _ => ?_
  rw [show (b.subst σ).bodies = b.bodies.map (·.subst σ) from rfl]
  cases b.bodies with
  | nil => exact mirrors_error
  | cons body outer =>
    refine mirrors_ite Iff.rfl mirrors_error (mirrors_bind fun parts => ?_)
    refine mirrors_ite Iff.rfl (mirrors_ok ?_) (mirrors_ok ?_)
    · simp [subst, Body.subst, Block.subst, Line.subst]
    · cases outer <;> simp [subst, block, Body.subst, Block.subst, literalPieces_subst]

/-- A directive is put in between lines, before or after they are substituted. -/
theorem map_insertIdxIfInBounds {α β : Type} (f : α → β) (xs : Array α) (i : Nat) (x : α) :
    (xs.insertIdxIfInBounds i x).map f = (xs.map f).insertIdxIfInBounds i (f x) := by
  unfold Array.insertIdxIfInBounds
  simp only [Array.size_map]
  split
  · apply Array.ext_getElem?
    intro k
    simp only [Array.getElem?_map, Array.getElem?_insertIdx, Array.size_map]
    repeat' split
    all_goals rfl
  · rfl

theorem mirrors_startStmt : Mirrors (subst σ) (b.subst σ).startStmt b.startStmt := by
  refine mirrors_bind fun _ => mirrors_ok ?_
  rw [block_subst]
  simp [subst, Block.subst]

/-- The directive has no slots, and its place is a number of lines. -/
theorem mirrors_endStmt (pos : Option SourcePos) (mark : Nat) :
    Mirrors (subst σ) ((b.subst σ).endStmt pos mark) (b.endStmt pos mark) := by
  unfold endStmt
  refine mirrors_bind fun _ => ?_
  rw [show (b.subst σ).stmts = b.stmts from rfl]
  cases b.stmts[mark]? with
  | none => exact mirrors_error
  | some state =>
    dsimp only
    rw [show (b.subst σ).stack.length = b.stack.length from List.length_map _]
    refine (mirrors_popMany (b := { b with stmts := b.stmts.take mark }) _).bind fun (rest, m) => ?_
    refine (mirrors_discardAll rest).bind fun m => ?_
    rw [show (m.subst σ).options = m.options from rfl]
    split
    · refine mirrors_ok ?_
      rw [block_subst, ← setBlock_subst]
      simp [Block.subst, map_insertIdxIfInBounds, directive, Line.subst]
    · exact mirrors_ok rfl

end Builder

namespace Action

variable {β : Type}

/-- The action with the values and lines in it substituted. -/
def subst : Action β → Action β
  | push e => push (e.subst σ)
  | line pieces => line (pieces.map (·.subst σ))
  | discard es => discard (es.map (·.subst σ))
  | action => action

/-- The reply of an action with the values in it substituted. -/
def substReply : Action β → β → β
  | take _, e => e.subst σ
  | takeMany _, es => es.map (·.subst σ)
  | _, x => x

/-- The action is not about the slots themselves. -/
def Neutral : Action β → Prop
  | reserve | fill _ _ => False
  | _ => True

variable {σ} {b : Builder}

/-- An action without a reply. -/
theorem mirrors_silent {image origin : Except Fault Builder}
    (h : Mirrors (Builder.subst σ) image origin) :
    Mirrors (Prod.map (fun x => x) (Builder.subst σ)) (silent image) (silent origin) := by
  cases h
  cases origin <;> rfl

/-- A substitution may come before an action or after it. -/
theorem perform_subst {action : Action β} (h : action.Neutral) :
    (action.subst σ).perform (b.subst σ) =
      (action.perform b).map (Prod.map (action.substReply σ) (Builder.subst σ)) := by
  cases action with
  | reserve | fill r v => exact h.elim
  | take f => exact Builder.mirrors_popExpr f
  | takeMany n => exact Builder.mirrors_popMany n
  | push e => exact mirrors_silent (Builder.mirrors_pushExpr e)
  | line pieces => exact mirrors_silent (Builder.mirrors_line rfl)
  | discard es => exact mirrors_silent (Builder.mirrors_discardAll es)
  | label l => exact mirrors_silent (Builder.mirrors_label l)
  | enter => exact congrArg (fun b => Except.ok ((), b)) Builder.enterBlock_subst
  | leave => exact mirrors_silent Builder.mirrors_leaveBlock
  | spell t => exact Builder.mirrors_typeText t
  | qualify n => exact congrArg Except.ok (Builder.qualified_subst n)
  | openFor id =>
    have hdepth : (b.subst σ).stack.length = b.stack.length := List.length_map _
    show Except.ok _ = Except.ok _
    rw [hdepth]
    rfl
  | name stem | closeFor id | setCollectors collectors => rfl
  | declare v => exact mirrors_silent (Builder.mirrors_declare v)
  | defineFunc f => exact mirrors_silent (Builder.mirrors_defineFunc f)
  | endFunc f => exact mirrors_silent (Builder.mirrors_endFunc f)
  | startStmt => exact mirrors_silent Builder.mirrors_startStmt
  | endStmt pos mark => exact mirrors_silent (Builder.mirrors_endStmt pos mark)

end Action

/-! ## Scripts -/

/-- The actions of the first script are those of the second, substituted, and so are its replies and
its result. -/
inductive Image {α β : Type} (f : α → β) : Script β → Script α → Prop
  | done {a : α} {a' : β} (h : a' = f a) : Image f (.done a') (.done a)
  | fail (e : Fault) : Image f (.fail e) (.fail e)
  | act {γ : Type} {action action' : Action γ} {next' : γ → Script β} {next : γ → Script α}
    (haction : action' = action.subst σ) (hneutral : action.Neutral)
    (h : ∀ x, Image f (next' (action.substReply σ x)) (next x)) :
    Image f (.act action' next') (.act action next)

section Image

variable {σ} {α β γ δ : Type} {f : α → β} {s' : Script β} {s : Script α} {b : Builder}

/-- A script does on the substituted state what its image does. -/
theorem Image.run (h : Image σ f s' s) (b : Builder) :
    s'.run (b.subst σ) = (s.run b).map (Prod.map f (Builder.subst σ)) := by
  induction h generalizing b with
  | done h => exact congrArg (fun a => Except.ok (a, b.subst σ)) h
  | fail e => rfl
  | @act _ action _ _ _ haction hneutral _ ih =>
    subst haction
    rw [Script.run, Script.run, Action.perform_subst hneutral]
    cases action.perform b with
    | error e => rfl
    | ok r => exact ih r.1 r.2

/-- One script after another. -/
theorem Image.bind {g : γ → δ} {next' : β → Script δ} {next : α → Script γ} (h : Image σ f s' s)
    (hnext : ∀ a, Image σ g (next' (f a)) (next a)) : Image σ g (s' >>= next') (s >>= next) := by
  induction h with
  | done h =>
    subst h
    exact hnext _
  | fail e => exact .fail e
  | act haction hneutral _ ih => exact .act haction hneutral ih

/-- A computation that does not look at the state is the same on both sides. -/
theorem image_ofExcept_bind {g : γ → δ} (outcome : Except Fault α) {next' : α → Script δ}
    {next : α → Script γ} (hnext : ∀ a, Image σ g (next' a) (next a)) :
    Image σ g (Script.ofExcept outcome >>= next') (Script.ofExcept outcome >>= next) := by
  cases outcome with
  | error e => exact .fail e
  | ok a => exact hnext a

/-- The value that is taken reaches the rest substituted. -/
theorem Image.take {e : Fault} {next' : Fragment → Script β} {next : Fragment → Script α}
    (h : ∀ x, Image σ f (next' (x.subst σ)) (next x)) :
    Image σ f (.act (.take e) next') (.act (.take e) next) := .act rfl trivial h

/-- The values that are taken reach the rest substituted. -/
theorem Image.takeMany {n : Nat} {next' : List Fragment → Script β}
    {next : List Fragment → Script α} (h : ∀ xs, Image σ f (next' (xs.map (·.subst σ))) (next xs)) :
    Image σ f (.act (.takeMany n) next') (.act (.takeMany n) next) := .act rfl trivial h

theorem Image.push {e' e : Fragment} {next' : Unit → Script β} {next : Unit → Script α}
    (he : e' = e.subst σ) (h : Image σ f (next' ()) (next ())) :
    Image σ f (.act (.push e') next') (.act (.push e) next) :=
  .act (congrArg Action.push he) trivial fun _ => h

theorem Image.line {pieces' pieces : List Piece} {next' : Unit → Script β}
    {next : Unit → Script α} (hpieces : pieces' = pieces.map (·.subst σ))
    (h : Image σ f (next' ()) (next ())) :
    Image σ f (.act (.line pieces') next') (.act (.line pieces) next) :=
  .act (congrArg Action.line hpieces) trivial fun _ => h

/-- What stays as it is is its own image. -/
theorem Image.refl_act {action : Action γ} {next' : γ → Script β} {next : γ → Script α}
    (h : ∀ x, Image σ f (next' x) (next x)) (haction : action.subst σ = action := by rfl)
    (hneutral : action.Neutral := by trivial)
    (hreply : action.substReply σ = fun x => x := by rfl) :
    Image σ f (.act action next') (.act action next) :=
  .act haction.symm hneutral fun x => by
    rw [hreply]
    exact h x

theorem image_push {e' e : Fragment} (he : e' = e.subst σ) :
    Image σ (fun x => x) (Script.push e') (Script.push e) := .push he (.done rfl)

theorem image_line {pieces' pieces : List Piece} (hpieces : pieces' = pieces.map (·.subst σ)) :
    Image σ (fun x => x) (Script.line pieces') (Script.line pieces) := .line hpieces (.done rfl)

end Image

/-! ## Calls -/

namespace Script

variable {σ}

/-- The condition of a case compares the tag with every value. -/
theorem caseCondition_subst (tag : Fragment) (values : List Fragment) :
    caseCondition (tag.subst σ) (values.map (·.subst σ)) =
      (caseCondition tag values).map (·.subst σ) := by
  fun_induction caseCondition tag values with
  | case1 => rfl
  | case2 v => simp [caseCondition, ← Fragment.pieces_subst]
  | case3 v rest hrest ih =>
    cases rest with
    | nil => exact absurd rfl hrest
    | cons v' rest => simpa [caseCondition, ← Fragment.pieces_subst] using ih

/-- Whether the tag gets a name of its own is a matter of its form. -/
theorem image_hoistTag : Image σ (·.subst σ) hoistTag hoistTag := by
  simp only [hoistTag, act_bind, done_bind, pure_eq_done]
  refine .take fun tag => ?_
  rw [Fragment.isSimple_subst]
  split
  · exact .push rfl (.done rfl)
  · exact .refl_act fun name => .line (by simp) (.push rfl (.done rfl))

theorem image_closeBlock : Image σ (fun x => x) closeBlock closeBlock :=
  .refl_act fun _ => image_line rfl

/-- What is collected into is a name, and what is collected comes from the stack. -/
theorem image_collect (collectors : List Collector) :
    Image σ (fun x => x) (collect collectors) (collect collectors) := by
  rcases collectors with _ | ⟨⟨id, name, _ | _⟩, outer⟩
  · exact .fail _
  · exact .take fun elem => image_line (by simp)
  · refine .takeMany fun entry => image_line ?_
    rcases entry with _ | ⟨k, _ | ⟨v, _ | ⟨e, entry⟩⟩⟩ <;> simp [collect.entryPieces]

theorem image_update (p : Fragment) (op : AddressOp) :
    Image σ (fun x => x) (update (p.subst σ) op) (update p op) := by
  cases op with
  | value => exact image_push rfl
  | inc | dec => exact image_line (by simp)
  | _ => exact .take fun v => image_line (by simp)

theorem image_callNamed (name : String) (n : Nat) (ellipsis : Bool) :
    Image σ (fun x => x) (callNamed name n ellipsis) (callNamed name n ellipsis) :=
  .takeMany fun args => image_push (by simp)

/-- By induction on the variables, whose definitions are fixed text. -/
theorem image_defineVar (vs : List Var) :
    Image σ (fun x => x) (vs.forM defineVar) (vs.forM defineVar) := by
  induction vs with
  | nil => exact .done rfl
  | cons v vs ih => exact .refl_act fun _ => .refl_act fun type => .line rfl ih

theorem image_store (name : String) : Image σ (fun x => x) (store name) (store name) :=
  .take fun v => image_line (by simp)

theorem image_indexOperands (i : Int) :
    Image σ (Prod.map (·.subst σ) (·.subst σ)) (indexOperands i) (indexOperands i) := by
  unfold indexOperands
  split
  · exact .take fun i => .take fun x => .done rfl
  · exact .take fun x => .done rfl

/-- By induction on the bounds, which are taken from the stack or left out. -/
theorem image_sliceBounds (bounds : List Int) :
    Image σ (List.map (Option.map (·.subst σ))) (sliceBounds bounds) (sliceBounds bounds) := by
  induction bounds with
  | nil => exact .done rfl
  | cons i rest ih =>
    refine ih.bind fun bounds => ?_
    split
    · exact .done rfl
    · split
      · exact .take fun e => .done rfl
      · exact .done rfl

end Script

namespace Builder

open Script

variable {σ} {b : Builder} {c : Call}

/-- A stored literal is looked up by the number of its function. -/
theorem lookup_subst (closures : List (Nat × Fragment)) (k : Nat) :
    (closures.map fun p => (p.1, p.2.subst σ)).lookup k = (closures.lookup k).map (·.subst σ) := by
  induction closures with
  | nil => rfl
  | cons p closures ih =>
    rw [List.map_cons, List.lookup_cons, List.lookup_cons, ih]
    cases k == p.1 <;> rfl

/-- A function literal that was stored before is pushed with its slots substituted. -/
theorem image_closure (f : Func) :
    Image σ (fun x => x) (closure (b.subst σ) f) (closure b f) := by
  refine image_push ?_
  show ((b.closures.map fun p => (p.1, p.2.subst σ)).lookup f.id).getD _ = _
  rw [lookup_subst]
  cases b.closures.lookup f.id <;> rfl

/-- The names of parameters come from the open function. -/
theorem argName_subst (i : Int) : (b.subst σ).argName i = b.argName i := by
  unfold argName subst
  cases b.bodies <;> rfl

/-- The call neither reserves nor fills a place, and if it follows an address, no slot of the
address becomes a text. -/
def Respects (σ : Substitution) (b : Builder) : Call → Prop
  | .reserve | .fill _ _ => False
  | .addressOp _ _ => ∀ e ∈ b.stack.head?, e.KeepsSlots σ
  | _ => True

/-- The end of a loop compares depths of the stack. -/
theorem image_endForPhrase (f : ForPhrase) :
    Image σ (fun x => x) (endForPhrase (b.subst σ) f) (endForPhrase b f) := by
  have hlength : (b.subst σ).stack.length = b.stack.length := List.length_map _
  unfold endForPhrase
  rw [hlength, show (b.subst σ).fors = b.fors from rfl,
    show (b.subst σ).collectors = b.collectors from rfl]
  cases b.fors.lookup f.id with
  | none => exact .fail _
  | some depth =>
    simp only [act_bind, done_bind]
    refine .refl_act fun _ => ?_
    split
    · exact (image_collect _).bind fun _ => image_closeBlock
    · exact image_closeBlock

theorem image_endComprehension (d : Comprehension) :
    Image σ (fun x => x) (endComprehension (b.subst σ) d) (endComprehension b d) := by
  unfold endComprehension
  rw [show (b.subst σ).collectors = b.collectors from rfl]
  cases b.collectors with
  | nil => exact .fail _
  | cons collector outer =>
    dsimp only
    split
    · exact .refl_act fun _ => image_push rfl
    · exact .fail _

/-- The script of a call on the substituted state is the image of its script. -/
theorem image_script (hc : Respects σ b c) (haddress : ∀ k op, c ≠ .addressOp k op) :
    Image σ (fun x => x) ((b.subst σ).script c) (b.script c) := by
  cases c with
  | reserve | fill r v => exact hc.elim
  | addressOp k op => exact absurd rfl (haddress k op)
  | push v | loadVar v | addrVar v => exact image_push rfl
  | pop n => exact .takeMany fun es => .act rfl trivial fun _ => .done rfl
  | builtinOp k op =>
    cases op with
    | unary op => exact .take fun x => image_push (by simp)
    | binary op => exact .take fun y => .take fun x => image_push (by simp)
  | label l | defineFunc f | endFunc f | startStmt pos | endStmt pos mark =>
    exact .refl_act fun _ => .done rfl
  | jump l => exact image_line rfl
  | jumpIf cond l =>
    refine .take fun e => image_line ?_
    cases cond <;> simp
  | caseNe l arity =>
    refine .takeMany fun values => image_hoistTag.bind fun tag => image_line ?_
    simp [caseCondition_subst]
  | defaultCase => exact .take fun _ => .done rfl
  | forPhrase f key val hasContext =>
    simp only [script, forPhrase, openBlock, act_bind, done_bind]
    rw [show (b.subst σ).fors = b.fors from rfl]
    refine .take fun container => ?_
    split
    · exact .fail _
    · exact .refl_act fun _ => .line (by simp) (.refl_act fun _ => .done rfl)
  | filterForPhrase f =>
    show Image σ _ (filterForPhrase (b.subst σ) f) (filterForPhrase b f)
    unfold filterForPhrase
    rw [show (b.subst σ).fors = b.fors from rfl]
    split
    · exact .fail _
    · refine .take fun e => .line (by simp) (.refl_act fun _ => .line rfl ?_)
      exact image_closeBlock
  | endForPhrase f => exact image_endForPhrase f
  | listComprehension d | mapComprehension d =>
    exact .refl_act fun name => .refl_act fun type => .line rfl (.refl_act fun _ => .done rfl)
  | endComprehension d => exact image_endComprehension d
  | closure f | nativeClosure f => exact image_closure f
  | callClosure n arity ellipsis | callNativeClosure n arity ellipsis =>
    exact .takeMany fun args => .take fun g => image_push (by simp)
  | callFunc f n | callVariadicFunc f n arity => exact image_callNamed f.name n _
  | callNative address n | callVariadicNative address n arity =>
    refine image_ofExcept_bind _ fun native => .takeMany fun args => ?_
    exact .refl_act fun name => image_push (by simp)
  | ret n =>
    show Image σ _ (Script.ret n) (Script.ret n)
    unfold Script.ret
    split
    · exact image_line rfl
    · exact .takeMany fun values => image_line (by simp)
  | load i =>
    show Image σ _ (ofExcept ((b.subst σ).argName i) >>= _) _
    rw [argName_subst]
    exact image_ofExcept_bind _ fun name => image_push rfl
  | store i =>
    show Image σ _ (ofExcept ((b.subst σ).argName i) >>= _) _
    rw [argName_subst]
    exact image_ofExcept_bind _ fun name => image_store name
  | defineVar vs => exact image_defineVar vs
  | storeVar v => exact image_store _
  | append t arity =>
    show Image σ _ (Script.append arity) (Script.append arity)
    unfold Script.append
    split
    · exact image_callNamed _ _ _
    · exact image_callNamed _ _ _
  | makeArray t n | makeMap t n =>
    exact .takeMany fun es => .refl_act fun type => image_push (by simp)
  | make t n => exact .refl_act fun type => .takeMany fun args => image_push (by simp)
  | mapIndex | index i =>
    exact (image_indexOperands _).bind fun operands => image_push (by simp)
  | setMapIndex | setIndex i =>
    refine (image_indexOperands _).bind fun operands => .take fun v => image_line ?_
    simp [← Fragment.pieces_subst]
  | slice i j | slice3 i j k =>
    exact (image_sliceBounds _).bind fun bounds => .take fun x => image_push (by simp)
  | cast source target => exact .take fun x => .refl_act fun type => image_push (by simp)
  | builtin t f =>
    refine .takeMany fun args => ?_
    show Image σ _ (if f.producesValue then _ else _) (if f.producesValue then _ else _)
    split
    · exact image_push (by simp)
    · exact image_line (by simp [← Fragment.pieces_subst])
  | zero t =>
    show Image σ _ (Script.zero t) (Script.zero t)
    unfold Script.zero
    split
    · exact image_push rfl
    · exact .refl_act fun type => image_push rfl

/-- Following an address comes to the same, if no slot of the address becomes a text. -/
theorem run_addressOp_subst (h : ∀ e ∈ b.stack.head?, e.KeepsSlots σ) (op : AddressOp) :
    (addressOp op).run (b.subst σ) =
      ((addressOp op).run b).map (Prod.map (fun x => x) (subst σ)) := by
  have hpop := mirrors_popExpr (σ := σ) (b := b) .stackUnderflow
  have haction : ∀ b : Builder, (addressOp op).run b =
      b.popExpr .stackUnderflow >>= fun r => (update r.1.dereference op).run r.2 := fun _ => rfl
  rw [haction, haction, hpop]
  cases hb : b.popExpr .stackUnderflow with
  | error fault => rfl
  | ok r =>
    obtain ⟨rest, hstack, -⟩ := popExpr_eq_ok.mp hb
    have hkeeps : r.1.KeepsSlots σ := h r.1 (by rw [hstack]; rfl)
    show (update (r.1.subst σ).dereference op).run (r.2.subst σ) = _
    rw [Fragment.dereference_subst σ hkeeps]
    exact (image_update _ op).run r.2

/-- A substitution may come before a call or after it. -/
theorem step_subst (hc : Respects σ b c) :
    (b.subst σ).step c = (b.step c).map (subst σ) := by
  have hrun : ((b.subst σ).script c).run (b.subst σ) =
      ((b.script c).run b).map (Prod.map (fun x => x) (subst σ)) := by
    by_cases haddress : ∃ k op, c = .addressOp k op
    · obtain ⟨k, op, rfl⟩ := haddress
      exact run_addressOp_subst hc op
    · exact (image_script hc fun k op h => haddress ⟨k, op, h⟩).run b
  unfold step
  rw [hrun]
  cases (b.script c).run b <;> rfl

end Builder

end Lowering.Source
