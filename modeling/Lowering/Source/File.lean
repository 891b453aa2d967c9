import Lowering.Source.Builder

/-!
# Rendered source files

A finished file: the package clause, the imports, the functions in the order in which they ended,
and the main function with the statements of the top level. Line directives start at the left
margin. At the very end every tab becomes the chosen indentation.
-/

namespace Lowering.Source

/-- Puts the constants into the slots of a line. -/
def renderPieces (slots : Array (Option String)) : List Piece → Except Fault String
  | [] => .ok ""
  | .text s :: rest => do return s ++ (← renderPieces slots rest)
  | .slot i :: rest =>
    match slots[i]? with
    | some (some s) => do return s ++ (← renderPieces slots rest)
    | _ => .error (.slotUnfilled i)

/-- Whether a line is a directive, which must start at the left margin. -/
def Line.isDirective (l : Line) : Bool :=
  startsWith "//line " (Piece.leadingText l.pieces)

/-- One line with its indentation and its end. -/
def renderLine (slots : Array (Option String)) (l : Line) : Except Fault String := do
  let text ← renderPieces slots l.pieces
  return (if l.isDirective then "" else Builder.tabs l.indent) ++ text ++ "\n"

def renderLines (slots : Array (Option String)) (lines : List Line) : Except Fault String := do
  return String.join (← lines.mapM (renderLine slots))

/-- Replaces every tab. -/
def replaceTabs (indent s : String) : String :=
  String.ofList (s.toList.flatMap fun c => if c = '\t' then indent.toList else [c])

/-- The number of lines of a text; a last line need not be ended. -/
def lineCount (s : String) : Nat :=
  let cs := s.toList
  cs.count '\n' + (if cs.getLast?.elim true (· == '\n') then 0 else 1)

namespace Builder

/-- The text of the file. -/
def render (b : Builder) : Except Fault String := do
  let funcs ← b.funcs.toList.mapM fun lines => do return (← renderLines b.slots lines) ++ "\n"
  let top ← renderLines b.slots b.top.lines.toList
  return replaceTabs b.options.indent <|
    "package " ++ b.options.package ++ "\n\n" ++ b.imports.clause ++ String.join funcs ++
      "func " ++ b.options.mainFunc ++ "() \x7b\n" ++ top ++ "\x7d\n"

/-- Everything that was begun must have ended. -/
def checkComplete (b : Builder) : Except Fault Unit := do
  b.checkOpen .resolve
  let unfilled := (b.slots.filter Option.isNone).size
  if unfilled ≠ 0 then throw (.slotsUnfilled unfilled)
  if !b.bodies.isEmpty then throw .someFunctionOpen
  if let (id, _) :: _ := b.fors then throw (.forOpen id)
  if let c :: _ := b.collectors then throw (.comprehensionOpen c.id)

/-- Finishes the file: its text, and the builder that takes no more calls. Values that are left
over are discarded. -/
def resolve (b : Builder) : Except Fault (String × Builder) := do
  b.checkComplete
  let (rest, b) ← b.popMany b.stack.length
  let b ← b.discardAll rest
  let source ← b.render
  return (source, { b with resolved := true })

end Builder

end Lowering.Source
