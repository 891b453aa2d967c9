import Lowering.Source.Script

/-!
# Source backend

Renders emission calls as Go source. Values are fragments on a stack; a statement is written when a
value is stored, discarded or ends its statement. A reserved constant is a slot in a fragment, which
may have been copied into lines and function literals before it is filled.

`Builder.script` has a script for every emission call, and `Builder.step` takes the call. Once the
builder is resolved every further emission is a fault.
-/

namespace Lowering.Source

namespace Script

open Builder (varName labelName)

/-! ## Switches -/

/-- The comparison of a tag with every value of a case. -/
def caseCondition (tag : Fragment) : List Fragment → List Piece
  | [] => []
  | [v] => (tag.binary "!=" v BinaryOp.ne.precedence).pieces
  | v :: rest =>
    (tag.binary "!=" v BinaryOp.ne.precedence).pieces ++ [.text " && "] ++ caseCondition tag rest

/-- Gives a tag that must not be evaluated twice a name, which replaces it on the stack. -/
def hoistTag : Script Fragment := do
  let tag ← perform (.take .noSwitchTag)
  if tag.isSimple then
    push tag
    return tag
  else
    let name ← perform (.name "tag")
    line (.text (name ++ " := ") :: tag.pieces)
    push (.primary name)
    return .primary name

def caseNe (l : Label) (arity : Nat) : Script Unit := do
  let values ← takeMany arity
  let tag ← hoistTag
  line ([.text "if "] ++ caseCondition tag values ++
    [.text (" \x7b goto " ++ labelName l ++ " \x7d")])

def jumpIf (cond : Bool) (l : Label) : Script Unit := do
  let c ← take
  let test := if cond then c.pieces
    else .text "!" :: c.asOperand Operator.unaryPrecedence
  line ([.text "if "] ++ test ++ [.text (" \x7b goto " ++ labelName l ++ " \x7d")])

/-! ## Loops and comprehensions -/

/-- Writes a line after which the block is one level deeper. -/
def openBlock (header : List Piece) : Script Unit := do
  line header
  perform .enter

/-- Goes back one level and writes the closing line. -/
def closeBlock : Script Unit := do
  perform .leave
  textLine "\x7d"

/-- The variables of a loop, up to the word `range`. -/
def loopVars : (key val : Option Var) → String
  | none, none => ""
  | some k, none => varName k ++ " = "
  | k, some v => k.elim "_" varName ++ ", " ++ varName v ++ " = "

def forPhrase (b : Builder) (f : ForPhrase) (key val : Option Var) : Script Unit := do
  let container ← take
  if (b.fors.lookup f.id).isSome then fail (.forTwice f.id)
  else
    perform (.openFor f.id)
    openBlock
      ([.text ("for " ++ loopVars key val ++ "range ")] ++ container.pieces ++ [.text " \x7b"])

def filterForPhrase (b : Builder) (f : ForPhrase) : Script Unit :=
  if (b.fors.lookup f.id).isNone then fail (.filterOutside f.id)
  else do
    let c ← take
    openBlock ([.text "if !"] ++ c.asOperand Operator.unaryPrecedence ++ [.text " \x7b"])
    textLine "continue"
    closeBlock

/-- Adds what the loop body left on the stack to the innermost comprehension: a value under its
key, or one element. -/
def collect : List Collector → Script Unit
  | [] => fail .valuesOutsideComprehension
  | ⟨_, name, true⟩ :: _ => do
    let entry ← takeMany 2
    line (entryPieces name entry)
  | ⟨_, name, false⟩ :: _ => do
    let elem ← take
    line ([.text (name ++ " = append(" ++ name ++ ", ")] ++ elem.pieces ++ [.text ")"])
where
  /-- The assignment of a value to a key. -/
  entryPieces (name : String) : List Fragment → List Piece
    | [k, v] => [.text (name ++ "[")] ++ k.pieces ++ [.text "] = "] ++ v.pieces
    | _ => []

def endForPhrase (b : Builder) (f : ForPhrase) : Script Unit :=
  match b.fors.lookup f.id with
  | none => fail (.endForUnstarted f.id)
  | some depth => do
    perform (.closeFor f.id)
    if depth < b.stack.length then collect b.collectors
    closeBlock

/-- Declares the variable of a comprehension. -/
def startComprehension (b : Builder) (c : Comprehension) (isMap : Bool) : Script Unit := do
  let name ← perform (.name "ret")
  let type ← spell c.out
  textLine (if isMap then name ++ " := make(" ++ type ++ ")" else "var " ++ name ++ " " ++ type)
  perform (.setCollectors (⟨c.id, name, isMap⟩ :: b.collectors))

def endComprehension (b : Builder) (c : Comprehension) : Script Unit :=
  match b.collectors with
  | collector :: outer =>
    if collector.id = c.id then do
      perform (.setCollectors outer)
      push (.primary collector.name)
    else fail (.endComprehension c.id)
  | [] => fail (.endComprehension c.id)

/-! ## Functions and variables -/

def closure (b : Builder) (f : Func) : Script Unit :=
  push ((b.closures.lookup f.id).getD (.primary f.name))

def callClosure (nexpr : Nat) (ellipsis : Bool) : Script Unit := do
  let args ← takeMany nexpr
  let f ← take
  push (.call f args ellipsis)

def callNamed (name : String) (nexpr : Nat) (ellipsis : Bool) : Script Unit := do
  let args ← takeMany nexpr
  push (.call (.primary name) args ellipsis)

def callNative (b : Builder) (kind : SymbolKind) (address nexpr : Nat) (ellipsis : Bool) :
    Script Unit := do
  let n ← ofExcept (b.registry.native kind address)
  let args ← takeMany nexpr
  let name ← perform (.qualify n)
  push (.call (.primary name) args ellipsis)

def defineVar (v : Var) : Script Unit := do
  perform (.declare v)
  let type ← spell v.ty
  textLine ("var " ++ varName v ++ " " ++ type)

def store (name : String) : Script Unit := do
  let v ← take
  line (.text (name ++ " = ") :: v.pieces)

/-! ## Expressions -/

def builtinOp : Operator → Script Unit
  | .unary op => do
    let x ← take
    push (.unary op.text x)
  | .binary op => do
    let y ← take
    let x ← take
    push (.binary x op.text y op.precedence)

/-- What is done with the variable that an address leads to. -/
def update (p : Fragment) : AddressOp → Script Unit
  | .value => push p
  | .inc => line (p.pieces ++ [.text AddressOp.inc.text])
  | .dec => line (p.pieces ++ [.text AddressOp.dec.text])
  | op => do
    let v ← take
    line (p.pieces ++ [.text (" " ++ op.text ++ " ")] ++ v.pieces)

def addressOp (op : AddressOp) : Script Unit := do
  let p ← take
  update p.dereference op

/-- A count given as a signed number of 32 bits, read as an unsigned one of 64. -/
def unsignedCount (n : Int) : Nat := (n % 2 ^ 64).toNat

def append (arity : Int) : Script Unit :=
  if arity = arityEllipsis then callNamed "append" 2 true
  else callNamed "append" (unsignedCount arity) false

def ret (n : Int) : Script Unit :=
  if n = returnNamedResults ∨ n = 0 then textLine "return"
  else do
    let values ← takeMany (unsignedCount n)
    line (.text "return " :: Fragment.commaList values)

/-- The container and the index of an element; an index below zero is on the stack. -/
def indexOperands (i : Int) : Script (Fragment × Fragment) := do
  let index ← if i < 0 then take else pure (.primary (toString i))
  let x ← take
  return (x, index)

def index (i : Int) : Script Unit := do
  let (x, i) ← indexOperands i
  push (x.index i)

def setIndex (i : Int) : Script Unit := do
  let (x, i) ← indexOperands i
  let v ← take
  line ((x.index i).pieces ++ [.text " = "] ++ v.pieces)

/-- The bounds of a slice. Those on the stack were pushed from left to right, so they are taken
from right to left. -/
def sliceBounds : List Int → Script (List (Option Fragment))
  | [] => return []
  | i :: rest => do
    let bounds ← sliceBounds rest
    if i = boundOmitted then return none :: bounds
    else if i = boundFromStack then return some (← take) :: bounds
    else return some (.primary (toString i)) :: bounds

def slice (bounds : List Int) : Script Unit := do
  let bounds ← sliceBounds bounds
  let x ← take
  push (x.slice bounds)

def makeArray (t : Ty) (arity : Nat) : Script Unit := do
  let elements ← takeMany arity
  let type ← spell t
  push (.listLiteral type elements)

def makeMap (t : Ty) (arity : Nat) : Script Unit := do
  let items ← takeMany (arity * 2)
  let type ← spell t
  push (.mapLiteral type items)

def make (t : Ty) (arity : Nat) : Script Unit := do
  let type ← spell t
  let args ← takeMany arity
  push (.call (.primary "make") (.primary type :: args) false)

def cast (target : Ty) : Script Unit := do
  let x ← take
  let type ← spell target
  push (.conversion type x)

def builtin (f : Builtin) : Script Unit := do
  let args ← takeMany f.arity
  let call := Fragment.call (.primary f.name) args false
  if f.producesValue then push call else line call.pieces

/-- The zero of a type: a literal for an unnamed basic type. -/
def zero (t : Ty) : Script Unit :=
  match if t.isNamed then none else zeroText? t.kind with
  | some text => push (.primary text)
  | none => do
    let type ← spell t
    push (.primary ("*new(" ++ type ++ ")"))

end Script

namespace Builder

/-! ## Steps -/

open Script in
/-- What an emission call does. -/
def script (b : Builder) : Call → Script Unit
  | .push v => push (.primary (literalText v))
  | .pop n => do
    let es ← takeMany n
    perform (.discard es)
  | .builtinOp _ op => builtinOp op
  | .label l => perform (.label l)
  | .jump l => textLine ("goto " ++ labelName l)
  | .jumpIf cond l => jumpIf cond l
  | .caseNe l arity => caseNe l arity
  | .defaultCase => do
    let _ ← take
  | .forPhrase f key val _ => forPhrase b f key val
  | .filterForPhrase f => filterForPhrase b f
  | .endForPhrase f => endForPhrase b f
  | .listComprehension c => startComprehension b c false
  | .mapComprehension c => startComprehension b c true
  | .endComprehension c => endComprehension b c
  | .closure f => closure b f
  | .nativeClosure f => closure b f
  | .callClosure nexpr _ ellipsis => callClosure nexpr ellipsis
  | .callNativeClosure nexpr _ ellipsis => callClosure nexpr ellipsis
  | .callFunc f nexpr => callNamed f.name nexpr false
  | .callVariadicFunc f nexpr arity => callNamed f.name nexpr (arity = arityEllipsis)
  | .callNative address nexpr => callNative b .func address nexpr false
  | .callVariadicNative address nexpr arity =>
    callNative b .variadicFunc address nexpr (arity = arityEllipsis)
  | .defineFunc f => perform (.defineFunc f)
  | .endFunc f => perform (.endFunc f)
  | .ret n => ret n
  | .load i => do push (.primary (← ofExcept (b.argName i)))
  | .store i => do store (← ofExcept (b.argName i))
  | .defineVar vs => vs.forM defineVar
  | .loadVar v => push (.primary (varName v))
  | .storeVar v => store (varName v)
  | .addrVar v => push (.address (varName v))
  | .addressOp _ op => addressOp op
  | .append _ arity => append arity
  | .makeArray t arity => makeArray t arity
  | .makeMap t arity => makeMap t arity
  | .make t arity => make t arity
  | .mapIndex => index indexFromStack
  | .setMapIndex => setIndex indexFromStack
  | .index i => index i
  | .setIndex i => setIndex i
  | .slice i j => slice [i, j]
  | .slice3 i j k => slice [i, j, k]
  | .cast _ target => cast target
  | .builtin _ f => builtin f
  | .zero t => zero t
  | .startStmt _ => perform .startStmt
  | .endStmt pos mark => perform (.endStmt pos mark)
  | .reserve => perform .reserve
  | .fill r v => perform (.fill r v)

/-- Takes one emission call. -/
def step (b : Builder) (c : Call) : Except Fault Builder := ((b.script c).run b).map (·.2)

instance : Backend Builder where
  step := step
  nextReservation := nextReservation
  nextMark b := b.stmts.size
  inCurrentContext := inCurrentContext

end Builder

end Lowering.Source
