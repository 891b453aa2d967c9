import Lowering.Source.Body

/-!
# Scripts

What an emission call does to the state is a script: one action after the other, where later actions
may depend on what earlier ones have replied. There are few actions, and they are all that ever
changes the state.

`Action.perform` says what an action does, and `Script.run` performs those of a script in turn, up
to the first that fails.
-/

namespace Lowering.Source

/-- An elementary change of the state that replies with a value. -/
inductive Action : Type → Type
  /-- Takes the newest value. Where there is none the fault is `f`. -/
  | take (f : Fault) : Action Fragment
  /-- Takes `n` values, in the order in which they were pushed. -/
  | takeMany (n : Nat) : Action (List Fragment)
  | push (e : Fragment) : Action Unit
  | line (pieces : List Piece) : Action Unit
  /-- Writes values that nobody consumes. -/
  | discard (es : List Fragment) : Action Unit
  | label (l : Label) : Action Unit
  /-- Goes one level deeper. -/
  | enter : Action Unit
  /-- Goes back one level. -/
  | leave : Action Unit
  /-- Replies with the text of a type. -/
  | spell (t : Ty) : Action String
  /-- Replies with the name of a native symbol. -/
  | qualify (n : Native) : Action String
  /-- Replies with a new name. -/
  | name (stem : String) : Action String
  | declare (v : Var) : Action Unit
  | openFor (id : Nat) : Action Unit
  | closeFor (id : Nat) : Action Unit
  | setCollectors (collectors : List Collector) : Action Unit
  | defineFunc (f : Func) : Action Unit
  | endFunc (f : Func) : Action Unit
  | startStmt : Action Unit
  | endStmt (pos : Option SourcePos) (mark : Nat) : Action Unit
  | reserve : Action Unit
  | fill (r : Reservation) (v : Value) : Action Unit

namespace Action

/-- A change without a reply. -/
def silent (outcome : Except Fault Builder) : Except Fault (Unit × Builder) :=
  outcome.map fun b => ((), b)

/-- Performs an action. -/
def perform {β : Type} (b : Builder) : Action β → Except Fault (β × Builder)
  | take f => b.popExpr f
  | takeMany n => b.popMany n
  | push e => silent (b.pushExpr e)
  | line pieces => silent (b.line pieces)
  | discard es => silent (b.discardAll es)
  | label l => silent (b.label l)
  | enter => .ok ((), b.enterBlock)
  | leave => silent b.leaveBlock
  | spell t => b.typeText t
  | qualify n => .ok (b.qualified n)
  | name stem => .ok (b.temp stem)
  | declare v => silent (b.declare v)
  | openFor id => .ok ((), { b with fors := b.fors ++ [(id, b.stack.length)] })
  | closeFor id => .ok ((), { b with fors := b.fors.filter (·.1 ≠ id) })
  | setCollectors collectors => .ok ((), { b with collectors := collectors })
  | defineFunc f => silent (b.defineFunc f)
  | endFunc f => silent (b.endFunc f)
  | startStmt => silent b.startStmt
  | endStmt pos mark => silent (b.endStmt pos mark)
  | reserve => silent b.reserve
  | fill r v => silent (b.fill r v)

end Action

/-- Actions in turn, up to a result or a fault. -/
inductive Script (α : Type)
  | done (a : α)
  | fail (f : Fault)
  | act {β : Type} (action : Action β) (next : β → Script α)

namespace Script

/-- One script after another. -/
def bind {α β : Type} : Script α → (α → Script β) → Script β
  | done a, next => next a
  | fail f, _ => fail f
  | act action rest, next => act action fun x => (rest x).bind next

instance : Monad Script where
  pure := done
  bind := bind

/-- What is computed without a change of the state. -/
def ofExcept {α : Type} : Except Fault α → Script α
  | .ok a => done a
  | .error f => fail f

/-- Performs the actions of a script. -/
def run {α : Type} : Script α → Builder → Except Fault (α × Builder)
  | done a, b => .ok (a, b)
  | fail f, _ => .error f
  | act action next, b => do
    let (x, b) ← action.perform b
    (next x).run b

/-! ## Single actions -/

abbrev perform {α : Type} (action : Action α) : Script α := act action done

abbrev take : Script Fragment := perform (.take .stackUnderflow)

abbrev takeMany (n : Nat) : Script (List Fragment) := perform (.takeMany n)

abbrev push (e : Fragment) : Script Unit := perform (.push e)

abbrev line (pieces : List Piece) : Script Unit := perform (.line pieces)

abbrev textLine (s : String) : Script Unit := line [.text s]

abbrev spell (t : Ty) : Script String := perform (.spell t)

end Script

end Lowering.Source
