import Lowering.Registry
import Lowering.Source.Fragment
import Lowering.Source.Options
import Lowering.Source.TypeText

/-!
# State of the source backend

The lines written so far, the expressions that wait for a consumer, and what is open. The small
operations here write a line, push and pop expressions, and spell names and types; every emission
call is made of them.
-/

namespace Lowering.Source

/-- A line of the output. -/
structure Line where
  indent : Nat
  pieces : List Piece
  deriving DecidableEq

/-- The lines of a function body, or of the top level. -/
structure Block where
  lines : Array Line := #[]
  /-- Block depth inside the body; the body itself is at depth one. -/
  depth : Nat := 1
  vars : List Nat := []

/-- A function body that is being written. -/
structure Body where
  func : Func
  block : Block

/-- The variable in which a comprehension collects its elements. -/
structure Collector where
  id : Nat
  name : String
  isMap : Bool

/-- What was there when a statement started: values on the stack and lines of the block. -/
structure StmtMark where
  stackDepth : Nat
  line : Nat

/-- The state of the backend. -/
structure Builder where
  id : Nat
  registry : Registry
  options : Options := {}
  /-- Expressions without a consumer, the newest first. -/
  stack : List Fragment := []
  /-- The text of every reserved constant that has been filled. -/
  slots : Array (Option String) := #[]
  /-- The statements outside any function. -/
  top : Block := {}
  /-- Open function bodies, the innermost first. -/
  bodies : List Body := []
  /-- Finished functions at package level. -/
  funcs : Array (List Line) := #[]
  /-- The literals of finished nested functions. -/
  closures : List (Nat × Fragment) := []
  imports : Imports := {}
  /-- Open loops, the oldest first, and the stack depth at their start. -/
  fors : List (Nat × Nat) := []
  /-- Open comprehensions, the innermost first. -/
  collectors : List Collector := []
  stmts : Array StmtMark := #[]
  /-- Number of names made up so far. -/
  temps : Nat := 0
  resolved : Bool := false

namespace Builder

/-! ## Blocks and lines -/

/-- The block that is being written. -/
def block (b : Builder) : Block :=
  match b.bodies with
  | body :: _ => body.block
  | [] => b.top

def setBlock (b : Builder) (block : Block) : Builder :=
  match b.bodies with
  | body :: outer => { b with bodies := { body with block := block } :: outer }
  | [] => { b with top := block }

/-- Refuses whatever comes after `resolve`. -/
def checkOpen (b : Builder) (what : Activity) : Except Fault Unit :=
  if b.resolved then .error (.afterResolve what) else .ok ()

/-- Writes a line at the depth of the block. -/
def line (b : Builder) (pieces : List Piece) : Except Fault Builder := do
  b.checkOpen .emission
  let block := b.block
  return b.setBlock { block with lines := block.lines.push ⟨block.depth, pieces⟩ }

/-- Goes one level deeper. -/
def enterBlock (b : Builder) : Builder := b.setBlock { b.block with depth := b.block.depth + 1 }

/-- Goes back one level. -/
def leaveBlock (b : Builder) : Except Fault Builder :=
  match b.block.depth with
  | 0 => .error .blockUnderflow
  | depth + 1 => .ok (b.setBlock { b.block with depth := depth })

/-! ## The stack -/

def pushExpr (b : Builder) (e : Fragment) : Except Fault Builder := do
  b.checkOpen .emission
  return { b with stack := e :: b.stack }

/-- Takes the newest expression. Where there is none the fault is `f`. -/
def popExpr (b : Builder) (f : Fault) : Except Fault (Fragment × Builder) :=
  match b.stack with
  | e :: rest => .ok (e, { b with stack := rest })
  | [] => .error f

/-- Takes `n` expressions, in the order in which they were pushed. -/
def popMany (b : Builder) (n : Nat) : Except Fault (List Fragment × Builder) :=
  if b.stack.length < n then .error (.stackShort n b.stack.length)
  else .ok ((b.stack.take n).reverse, { b with stack := b.stack.drop n })

/-- Writes a value that nobody consumes. A call stands by itself. -/
def discard (b : Builder) (e : Fragment) : Except Fault Builder :=
  if e.isCall then b.line e.pieces else b.line (.text "_ = " :: e.pieces)

def discardAll (b : Builder) (es : List Fragment) : Except Fault Builder := es.foldlM discard b

/-! ## Names -/

/-- Notes a variable, which the block must not have. -/
def declare (b : Builder) (v : Var) : Except Fault Builder :=
  if b.block.vars.contains v.id then .error (.variableTwice v)
  else .ok (b.setBlock { b.block with vars := v.id :: b.block.vars })

/-- A new name that no source text uses. -/
def temp (b : Builder) (stem : String) : String × Builder :=
  ("_gop_" ++ stem ++ toString b.temps, { b with temps := b.temps + 1 })

/-- The name of a variable; unnamed results have none of their own. -/
def varName (v : Var) : String := if v.isUnnamedResult then "_ret" ++ v.name else v.name

/-- Whether a text can be used as a label as it is. -/
def isLabelName (s : String) : Bool :=
  match s.toList with
  | [] => false
  | c :: cs =>
    (c == '_' || Text.isAlphabetic c) &&
      cs.all fun c => c == '_' || Text.isAlphabetic c || c.isDigit

/-- The name of a label; a name that cannot be used is replaced by the label's number. -/
def labelName (l : Label) : String :=
  if isLabelName l.name then l.name else "_gop_L" ++ toString l.id

/-- Places a label, one level left of the statements around it. -/
def label (b : Builder) (l : Label) : Except Fault Builder := do
  b.checkOpen .label
  let block := b.block
  return b.setBlock
    { block with lines := block.lines.push ⟨block.depth - 1, [.text (labelName l ++ ":")]⟩ }

/-- The name of an argument. Arguments are counted backward from zero. -/
def argName (b : Builder) (i : Int) : Except Fault String :=
  let n : Nat := match b.bodies with
    | body :: _ => body.func.params.length
    | [] => 0
  let place : Int := n + i
  if place < 0 ∨ (n : Int) ≤ place then .error (.argumentIndex i n)
  else .ok ("arg" ++ toString place)

/-- A native symbol with the alias of its package. -/
def qualified (b : Builder) (n : Native) : String × Builder :=
  if n.pkgPath.isEmpty then (n.name, b)
  else
    let imports := b.imports.add n.pkgPath
    (imports.aliasOf n.pkgPath ++ "." ++ n.name, { b with imports := imports })

/-! ## Types -/

/-- Puts aliases into spelled parts. -/
def resolveParts (b : Builder) (parts : List TypePart) : String × Builder :=
  let (text, imports) := b.imports.resolve parts
  (text, { b with imports := imports })

/-- The text of a type. -/
def typeText (b : Builder) (t : Ty) : Except Fault (String × Builder) := do
  return b.resolveParts (← spell b.options.package t)

/-- Names in front of spelled types. -/
def nameParts (names : List String) (types : List (List TypePart)) : List (List TypePart) :=
  (names.zip types).map fun (name, parts) => .text (name ++ " ") :: parts

/-- The parameters and results of a function. Named results always stand in parentheses. -/
def spellSignature (self : String) (f : Func) : Except Fault (List TypePart) := do
  let types ← spellParams self f.params f.variadic
  let names := (List.range types.length).map fun i => "arg" ++ toString i
  let results ← spellList self (f.results.map (·.ty))
  let results :=
    if f.hasUnnamedResults then results
    else if results.isEmpty then []
    else
      [[.text "("] ++ joinParts ", " (nameParts (f.results.map varName) results) ++ [.text ")"]]
  return [.text "("] ++ joinParts ", " (nameParts names types) ++ [.text ")"] ++
    spellResults results

end Builder

end Lowering.Source
