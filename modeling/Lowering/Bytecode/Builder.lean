import Lowering.Bytecode.Code
import Lowering.Call

/-!
# Bytecode backend

Emits a flat stream of instructions. A function body may be emitted anywhere: a jump before it leads
over it. Jumps to labels are patched at the end, when every label has its place; jumps of loops and
function bodies as soon as their end is known. A reserved constant is an instruction of its own
until it is filled.

`Builder.step` takes one emission call, `Builder.resolve` finishes the stream. After that every
further call is a fault.
-/

namespace Lowering.Bytecode

/-- A function body that is being emitted. -/
structure Body where
  func : Nat
  /-- The jump that leads over the body. -/
  skip : Nat
  /-- The variables of the frame; a variable's slot is its place in the list. -/
  vars : List Nat

/-- A loop that is being emitted. -/
structure OpenFor where
  start : Nat
  filters : List Nat := []

/-- The state of the backend. -/
structure Builder where
  id : Nat
  ops : Array Op := #[]
  /-- Placed labels and where they are. -/
  labels : List (Nat × Nat) := []
  /-- Jumps to labels, in order. -/
  fixups : Array (Nat × Label) := #[]
  /-- Reserved places that are not filled yet. -/
  pending : List Nat := []
  /-- The variables of the top level. -/
  globals : List Nat := []
  /-- Open function bodies, the innermost first. -/
  bodies : List Body := []
  funcs : Array FuncEntry := #[]
  /-- Open loops, the oldest first. -/
  fors : List (Nat × OpenFor) := []
  /-- Open comprehensions, the innermost first. -/
  comprehensions : List Nat := []
  spans : Array StmtSpan := #[]
  resolved : Bool := false

namespace Builder

/-! ## Parts of a step -/

/-- Refuses whatever comes after `resolve`. -/
def checkOpen (b : Builder) (what : Activity) : Except Fault Unit :=
  if b.resolved then .error (.afterResolve what) else .ok ()

/-- Appends an instruction. -/
def emit (b : Builder) (op : Op) : Except Fault Builder :=
  if b.resolved then .error (.afterResolve .emission) else .ok { b with ops := b.ops.push op }

/-- Appends a jump to a label. -/
def emitJump (b : Builder) (l : Label) (op : Op) : Except Fault Builder :=
  emit { b with fixups := b.fixups.push (b.ops.size, l) } op

/-- The frames in which a variable is looked for, the innermost first. -/
def frames (b : Builder) : List (List Nat) := b.bodies.map (·.vars) ++ [b.globals]

/-- Looks for a variable in frames that begin `scope` frames outward. -/
def findRef (id : Nat) : (scope : Nat) → List (List Nat) → Option VarRef
  | _, [] => none
  | scope, frame :: outer =>
    match frame.idxOf? id with
    | some slot => some ⟨scope, slot⟩
    | none => findRef id (scope + 1) outer

def varRef (b : Builder) (v : Var) : Except Fault VarRef :=
  (findRef v.id 0 b.frames).elim (.error (.variableUndefined v)) .ok

/-- The place of an optional loop variable. -/
def optionalRef (b : Builder) : Option Var → Except Fault (Option VarRef)
  | none => .ok none
  | some v => (b.varRef v).map some

/-- Gives each variable the next slot of a frame. -/
def define (frame : List Nat) : List Var → Except Fault (List Nat)
  | [] => .ok frame
  | v :: vs => if v.id ∈ frame then .error (.variableTwice v) else define (frame ++ [v.id]) vs

/-- Whether the innermost frame has the variable. -/
def inCurrentContext (b : Builder) (v : Var) : Bool :=
  match b.bodies with
  | body :: _ => body.vars.contains v.id
  | [] => b.globals.contains v.id

/-! ## Loops -/

def forPhrase (b : Builder) (f : ForPhrase) (key val : Option Var) (hasContext : Bool) :
    Except Fault Builder := do
  let key ← b.optionalRef key
  let val ← b.optionalRef val
  if (b.fors.lookup f.id).isSome then throw (.forTwice f.id)
  emit { b with fors := b.fors ++ [(f.id, { start := b.ops.size })] }
    (.forPhrase key val hasContext 0)

/-- Notes a filter of an open loop. -/
def noteFilter (id ip : Nat) : List (Nat × OpenFor) → List (Nat × OpenFor)
  | [] => []
  | (i, f) :: rest =>
    if i = id then (i, { f with filters := f.filters ++ [ip] }) :: rest
    else (i, f) :: noteFilter id ip rest

def filterForPhrase (b : Builder) (f : ForPhrase) : Except Fault Builder :=
  if (b.fors.lookup f.id).isSome then
    emit { b with fors := noteFilter f.id b.ops.size b.fors } (.filterForPhrase 0)
  else .error (.filterOutside f.id)

/-- Ends a loop: filters lead to its last instruction, the loop itself behind it. -/
def endForPhrase (b : Builder) (f : ForPhrase) : Except Fault Builder :=
  match b.fors.lookup f.id with
  | none => .error (.endForUnstarted f.id)
  | some loop => do
    let last := b.ops.size
    let b ← emit { b with fors := b.fors.filter (·.1 ≠ f.id) }
      (.endForPhrase ((loop.start : Int) - last))
    let ops := loop.filters.foldl (fun ops ip => Op.patchJump ops ip last) b.ops
    return { b with ops := Op.patchJump ops loop.start (last + 1) }

/-! ## Functions -/

/-- Starts a body, with the result variables in its first slots. -/
def defineFunc (b : Builder) (f : Func) : Except Fault Builder := do
  if b.funcs.any (·.id == f.id) || b.bodies.any (·.func == f.id) then
    throw (.functionTwice f)
  let skip := b.ops.size
  let b ← b.emit (.jump 0)
  let vars ← define [] f.results
  return { b with bodies := { func := f.id, skip := skip, vars := vars } :: b.bodies }

/-- Ends the innermost body, which must be that of `f`. -/
def endFunc (b : Builder) (f : Func) : Except Fault Builder := do
  b.checkOpen .endFunc
  match b.bodies with
  | [] => throw (.endFuncMismatch f)
  | body :: outer =>
    if body.func ≠ f.id then throw (.endFuncMismatch f)
    let stop := b.ops.size
    let entry : FuncEntry :=
      { id := f.id, name := f.name, entry := body.skip + 1, stop := stop,
        numIn := f.params.length, numOut := f.results.length, variadic := f.variadic,
        numVars := body.vars.length }
    return { b with
      bodies := outer, ops := Op.patchJump b.ops body.skip stop, funcs := b.funcs.push entry }

/-- Defines variables in the innermost frame. -/
def defineVar (b : Builder) (vs : List Var) : Except Fault Builder := do
  b.checkOpen .defineVar
  match b.bodies with
  | body :: outer =>
    let vars ← define body.vars vs
    return { b with bodies := { body with vars := vars } :: outer }
  | [] => return { b with globals := ← define b.globals vs }

/-! ## Labels, statements, reservations -/

def label (b : Builder) (l : Label) : Except Fault Builder := do
  b.checkOpen .label
  if (b.labels.lookup l.id).isSome then throw (.labelTwice l)
  return { b with labels := (l.id, b.ops.size) :: b.labels }

def endComprehension (b : Builder) (c : Comprehension) : Except Fault Builder :=
  match b.comprehensions with
  | id :: outer =>
    if id = c.id then emit { b with comprehensions := outer } .endComprehension
    else .error (.endComprehension c.id)
  | [] => .error (.endComprehension c.id)

def endStmt (b : Builder) (pos : Option SourcePos) (mark : Nat) : Except Fault Builder := do
  b.checkOpen .endStmt
  match pos with
  | some pos =>
    return { b with spans := b.spans.push { start := mark, stop := b.ops.size, pos := pos } }
  | none => return b

def nextReservation (b : Builder) : Reservation := ⟨b.id, b.ops.size⟩

def reserve (b : Builder) : Except Fault Builder :=
  emit { b with pending := b.ops.size :: b.pending } .reserved

/-- Turns a reserved place into a push. -/
def fill (b : Builder) (r : Reservation) (v : Value) : Except Fault Builder := do
  b.checkOpen .fill
  if r.builder ≠ b.id then throw (.foreignReservation r b.id)
  if r.position ∉ b.pending then throw (.filledTwice r.position)
  return { b with
    pending := b.pending.filter (· ≠ r.position)
    ops := b.ops.setIfInBounds r.position (.push v) }

/-! ## Steps -/

/-- Takes one emission call. -/
def step (b : Builder) : Call → Except Fault Builder
  | .push v => b.emit (.push v)
  | .pop n => b.emit (.pop n)
  | .builtinOp k op => b.emit (.builtinOp k op)
  | .label l => b.label l
  | .jump l => b.emitJump l (.jump 0)
  | .jumpIf cond l => b.emitJump l (.jumpIf cond 0)
  | .caseNe l arity => b.emitJump l (.caseNe 0 arity)
  | .defaultCase => b.emit .default
  | .forPhrase f key val hasContext => b.forPhrase f key val hasContext
  | .filterForPhrase f => b.filterForPhrase f
  | .endForPhrase f => b.endForPhrase f
  | .listComprehension c =>
    emit { b with comprehensions := c.id :: b.comprehensions } (.listComprehension c.out)
  | .mapComprehension c =>
    emit { b with comprehensions := c.id :: b.comprehensions } (.mapComprehension c.out)
  | .endComprehension c => b.endComprehension c
  | .closure f => b.emit (.closure f.id)
  | .nativeClosure f => b.emit (.nativeClosure f.id)
  | .callClosure nexpr arity ellipsis => b.emit (.callClosure nexpr arity ellipsis)
  | .callNativeClosure nexpr arity ellipsis => b.emit (.callNativeClosure nexpr arity ellipsis)
  | .callFunc f nexpr => b.emit (.callFunc f.id nexpr)
  | .callVariadicFunc f nexpr arity => b.emit (.callVariadicFunc f.id nexpr arity)
  | .callNative address nexpr => b.emit (.callNative address nexpr)
  | .callVariadicNative address nexpr arity => b.emit (.callVariadicNative address nexpr arity)
  | .defineFunc f => b.defineFunc f
  | .endFunc f => b.endFunc f
  | .ret n => b.emit (.ret n)
  | .load i => b.emit (.load i)
  | .store i => b.emit (.store i)
  | .defineVar vs => b.defineVar vs
  | .loadVar v => do b.emit (.loadVar (← b.varRef v))
  | .storeVar v => do b.emit (.storeVar (← b.varRef v))
  | .addrVar v => do b.emit (.addrVar (← b.varRef v))
  | .addressOp k op => b.emit (.addressOp k op)
  | .append t arity => b.emit (.append t arity)
  | .makeArray t arity => b.emit (.makeArray t arity)
  | .makeMap t arity => b.emit (.makeMap t arity)
  | .make t arity => b.emit (.make t arity)
  | .mapIndex => b.emit .mapIndex
  | .setMapIndex => b.emit .setMapIndex
  | .index i => b.emit (.index i)
  | .setIndex i => b.emit (.setIndex i)
  | .slice i j => b.emit (.slice i j)
  | .slice3 i j k => b.emit (.slice3 i j k)
  | .cast source target => b.emit (.cast source target)
  | .builtin t f => b.emit (.builtin t f)
  | .zero t => b.emit (.zero t)
  | .startStmt _ => do
    b.checkOpen .startStmt
    return b
  | .endStmt pos mark => b.endStmt pos mark
  | .reserve => b.reserve
  | .fill r v => b.fill r v

/-! ## Finishing -/

/-- Leads every jump to its label. -/
def patchLabels (labels : List (Nat × Nat)) :
    Array Op → List (Nat × Label) → Except Fault (Array Op)
  | ops, [] => .ok ops
  | ops, (ip, l) :: rest =>
    match labels.lookup l.id with
    | some target => patchLabels labels (Op.patchJump ops ip target) rest
    | none => .error (.labelUndefined l.name)

/-- Everything that was begun must have ended. -/
def checkComplete (b : Builder) : Except Fault Unit := do
  b.checkOpen .resolve
  if let some first := b.pending.min? then throw (.unfilled b.pending.length first)
  if let some body := b.bodies.getLast? then throw (.functionOpen body.func)
  if let (id, _) :: _ := b.fors then throw (.forOpen id)
  if let id :: _ := b.comprehensions then throw (.comprehensionOpen id)

/-- Finishes the stream: the code, and the builder that takes no more calls. -/
def resolve (b : Builder) : Except Fault (Code × Builder) := do
  b.checkComplete
  let ops ← patchLabels b.labels b.ops b.fixups.toList
  let code : Code :=
    { ops := ops.toList, funcs := b.funcs.toList, spans := b.spans.toList,
      numVars := b.globals.length }
  return (code, { b with ops := #[], funcs := #[], spans := #[], resolved := true })

instance : Backend Builder where
  step := step
  nextReservation := nextReservation
  nextMark b := b.ops.size
  inCurrentContext := inCurrentContext

end Builder

end Lowering.Bytecode
