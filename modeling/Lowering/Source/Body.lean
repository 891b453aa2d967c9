import Lowering.Call
import Lowering.Source.State

/-!
# Bodies, statements and slots

The operations that start and end something: a function body, whose lines become a declaration or a
literal when it ends; a statement, which takes away what it has left on the stack; and a slot for a
constant that is reserved first and filled later.
-/

namespace Lowering.Source.Builder

/-! ## Functions -/

def defineFunc (b : Builder) (f : Func) : Except Fault Builder := do
  b.checkOpen .defineFunc
  if b.bodies.any (·.func.id == f.id) then throw (.functionTwice f)
  let vars := if f.hasUnnamedResults then [] else f.results.map (·.id)
  return { b with bodies := { func := f, block := { vars := vars } } :: b.bodies }

/-- Tabs of an indentation. -/
def tabs (n : Nat) : String := String.ofList (List.replicate n '\t')

/-- The lines of a nested function as one fragment. -/
def literalPieces (outer : Nat) (signature : String) (lines : List Line) : List Piece :=
  [.text ("func" ++ signature ++ " \x7b\n")] ++
    lines.flatMap (fun l => [.text (tabs (outer + l.indent))] ++ l.pieces ++ [.text "\n"]) ++
    [.text (tabs outer ++ "\x7d")]

/-- Ends the innermost body, which must be that of `f`. A function at package level becomes a
declaration, a nested one a literal. -/
def endFunc (b : Builder) (f : Func) : Except Fault Builder := do
  b.checkOpen .endFunc
  match b.bodies with
  | [] => throw (.endFuncMismatch f)
  | body :: outer =>
    if body.func.id ≠ f.id then throw (.endFuncMismatch f)
    let b := { b with bodies := outer }
    let (signature, b) := b.resolveParts (← spellSignature b.options.package f)
    let lines := body.block.lines.toList
    if f.nestDepth = 0 then
      let header : Line := ⟨0, [.text ("func " ++ f.name ++ signature ++ " \x7b")]⟩
      return { b with funcs := b.funcs.push ([header] ++ lines ++ [⟨0, [.text "\x7d"]⟩]) }
    else
      let literal : Fragment := { pieces := literalPieces b.block.depth signature lines }
      return { b with closures := (f.id, literal) :: b.closures }

/-- Whether the innermost block has the variable. -/
def inCurrentContext (b : Builder) (v : Var) : Bool := b.block.vars.contains v.id

/-! ## Statements and reservations -/

def startStmt (b : Builder) : Except Fault Builder := do
  b.checkOpen .startStmt
  return { b with stmts := b.stmts.push ⟨b.stack.length, b.block.lines.size⟩ }

/-- A line directive. -/
def directive (pos : SourcePos) : Line :=
  ⟨0, [.text ("//line " ++ pos.file ++ ":" ++ toString pos.line)]⟩

/-- Ends the statement at `mark` and all that started after it: discards the values it left and
puts its directive where it started. -/
def endStmt (b : Builder) (pos : Option SourcePos) (mark : Nat) : Except Fault Builder := do
  b.checkOpen .endStmt
  match b.stmts[mark]? with
  | none => throw (.unknownStatement mark)
  | some state =>
    let b := { b with stmts := b.stmts.take mark }
    let (rest, b) ← b.popMany (b.stack.length - state.stackDepth)
    let b ← b.discardAll rest
    match pos, b.options.lineDirectives with
    | some pos, true =>
      let block := b.block
      let place := min state.line block.lines.size
      return b.setBlock
        { block with lines := block.lines.insertIdxIfInBounds place (directive pos) }
    | _, _ => return b

def nextReservation (b : Builder) : Reservation := ⟨b.id, b.slots.size⟩

def reserve (b : Builder) : Except Fault Builder := do
  b.checkOpen .reserve
  return { b with slots := b.slots.push none, stack := .slot b.slots.size :: b.stack }

def fill (b : Builder) (r : Reservation) (v : Value) : Except Fault Builder := do
  b.checkOpen .fill
  if r.builder ≠ b.id then throw (.foreignReservation r b.id)
  match b.slots[r.position]? with
  | some none =>
    return { b with slots := b.slots.setIfInBounds r.position (some (literalText v)) }
  | some (some _) => throw (.filledTwice r.position)
  | none => throw (.unknownReservation r.position)

end Lowering.Source.Builder
