import Lowering.Bytecode.Code
import Lowering.Call
import Lowering.Value.Text

/-!
# Listings of bytecode

A readable text of finished code: a line on the top level, one on each function, a rule, and then
one line for every instruction. Lines of their own show where functions begin, where the source
position changes and where jumps lead.
-/

namespace Lowering.Bytecode.Listing

/-- A text filled up on the right to `width` characters. -/
def padRight (width : Nat) (s : String) : String :=
  s ++ String.ofList (List.replicate (width - s.length) ' ')

/-- A number with at least four digits. -/
def place (n : Nat) : String :=
  let digits := Nat.toDigits 10 n
  String.ofList (List.replicate (4 - digits.length) '0' ++ digits)

/-- A number with its sign, also if it is positive. -/
def signed (z : Int) : String := if z < 0 then toString z else "+" ++ toString z

/-- Where a jump leads; never before the first instruction. -/
def target (ip : Nat) (offset : Int) : Nat := ((ip : Int) + offset).toNat

/-- An instruction's name in its column, before its operands. -/
def named (name operands : String) : String := padRight 12 name ++ operands

def jump (name : String) (ip : Nat) (offset : Int) : String :=
  named name (signed offset ++ (if offset < 0 then " ↑" else " ↓") ++
    " (→ " ++ place (target ip offset) ++ ")")

def var (r : VarRef) : String :=
  if r.scope = 0 then "$" ++ toString r.slot
  else "$" ++ toString r.slot ++ "^" ++ toString r.scope

def optionalVar (r : Option VarRef) : String := r.elim "_" var

/-- An arity below zero is open. -/
def arity (n : Int) : String := if n < 0 then "..." else toString n

/-- An index below zero is on the stack. -/
def index (i : Int) : String := if i < 0 then "<stack>" else toString i

def bound (i : Int) : String :=
  if i = boundOmitted then "" else if i = boundFromStack then "<stack>" else toString i

/-- The operands of a call of a closure. -/
def closureCall (nexpr : Nat) (n : Int) (ellipsis : Bool) : String :=
  toString nexpr ++ "/" ++ arity n ++ (if ellipsis then " ..." else "")

/-- The text of the instruction at `ip`. -/
def opText (ip : Nat) : Op → String
  | .push v => named "PUSH" (v.literal ++ " ; " ++ v.kind.name)
  | .pop n => named "POP" (toString n)
  | .reserved => "RESERVED"
  | .zero t => named "ZERO" t.text
  | .builtinOp k op => named "OP" (op.text ++ " ; " ++ k.name)
  | .addressOp k op => named "ADDR_OP" (op.text ++ " ; " ++ k.name)
  | .cast source target => named "CAST" (source.text ++ " -> " ++ target.text)
  | .builtin t b => named "GO_BUILTIN" (b.name ++ " ; " ++ t.text)
  | .jump d => jump "JUMP" ip d
  | .jumpIf cond d => jump (if cond then "JUMP_TRUE" else "JUMP_FALSE") ip d
  | .caseNe d n => jump "CASE_NE" ip d ++ " ; " ++ toString n ++ " values"
  | .default => "DEFAULT"
  | .forPhrase key val context d =>
    jump "FOR" ip d ++ " ; k=" ++ optionalVar key ++ " v=" ++ optionalVar val ++
      (if context then " ctx" else "")
  | .filterForPhrase d => jump "FOR_FILTER" ip d
  | .endForPhrase d => jump "FOR_END" ip d
  | .listComprehension t => named "LIST_COMP" t.text
  | .mapComprehension t => named "MAP_COMP" t.text
  | .endComprehension => "COMP_END"
  | .closure f => named "CLOSURE" ("#" ++ toString f)
  | .nativeClosure f => named "GO_CLOSURE" ("#" ++ toString f)
  | .callClosure nexpr n ellipsis => named "CALL_CLOS" (closureCall nexpr n ellipsis)
  | .callNativeClosure nexpr n ellipsis => named "CALL_GOCLOS" (closureCall nexpr n ellipsis)
  | .callFunc f nexpr => named "CALL" ("#" ++ toString f ++ " ; " ++ toString nexpr ++ " args")
  | .callVariadicFunc f nexpr n =>
    named "CALLV" ("#" ++ toString f ++ " ; " ++ toString nexpr ++ "/" ++ arity n)
  | .callNative a nexpr =>
    named "CALL_GO" ("@" ++ toString a ++ " ; " ++ toString nexpr ++ " args")
  | .callVariadicNative a nexpr n =>
    named "CALL_GOV" ("@" ++ toString a ++ " ; " ++ toString nexpr ++ "/" ++ arity n)
  | .ret n => named "RETURN" (if n < 0 then "named" else toString n)
  | .load i => named "LOAD" (toString i)
  | .store i => named "STORE" (toString i)
  | .loadVar r => named "LOAD_VAR" (var r)
  | .storeVar r => named "STORE_VAR" (var r)
  | .addrVar r => named "ADDR_VAR" (var r)
  | .append t n => named "APPEND" (arity n ++ " ; " ++ t.text)
  | .makeArray t n => named "MAKE_ARRAY" (toString n ++ " ; " ++ t.text)
  | .makeMap t n => named "MAKE_MAP" (toString n ++ " ; " ++ t.text)
  | .make t n => named "MAKE" (toString n ++ " ; " ++ t.text)
  | .mapIndex => "MAP_INDEX"
  | .setMapIndex => "SET_MAP_INDEX"
  | .index i => named "INDEX" (index i)
  | .setIndex i => named "SET_INDEX" (index i)
  | .slice i j => named "SLICE" ("[" ++ bound i ++ ":" ++ bound j ++ "]")
  | .slice3 i j k => named "SLICE3" ("[" ++ bound i ++ ":" ++ bound j ++ ":" ++ bound k ++ "]")

/-- The line on one function. -/
def funcLine (f : FuncEntry) : String :=
  "func " ++ f.name ++ " #" ++ toString f.id ++ ": " ++ place f.entry ++ ".." ++ place f.stop ++
    ", in " ++ toString f.numIn ++ (if f.variadic then "..." else "") ++
    ", out " ++ toString f.numOut ++ ", " ++ toString f.numVars ++ " vars\n"

/-- The rule between the function table and the instructions. -/
def rule : String := String.ofList (List.replicate 40 '═') ++ "\n"

/-- The line before an instruction that a jump leads to. -/
def targetRule : String := "      ┌" ++ String.ofList (List.replicate 34 '─') ++ "\n"

/-- Every place that a jump leads to. -/
def targets (ops : List Op) : List Nat :=
  ops.zipIdx.filterMap fun (op, ip) => op.jumpOffset?.map (target ip)

/-- The lines of the instruction at `ip`; `last` is the source position before it. -/
def opLines (c : Code) (targets : List Nat) (last : Option SourcePos) (ip : Nat) (op : Op) :
    String :=
  let entries := (c.funcs.filter (·.entry == ip)).map fun f => "      ; func " ++ f.name ++ "\n"
  let position := match c.posAt ip with
    | some pos =>
      if some pos = last then "" else "      ; " ++ pos.file ++ ":" ++ toString pos.line ++ "\n"
    | none => ""
  let isTarget := targets.contains ip
  String.join entries ++ position ++ (if isTarget then targetRule else "") ++
    place ip ++ " " ++ (if isTarget then "► " else "  ") ++ opText ip op ++ "\n"

/-- The listing of finished code. -/
def text (c : Code) : String :=
  let header := "main: " ++ toString c.ops.length ++ " instructions, " ++
    toString c.numVars ++ " vars\n"
  let targets := targets c.ops
  let lines := c.ops.zipIdx.map fun (op, ip) =>
    opLines c targets (if ip = 0 then none else c.posAt (ip - 1)) ip op
  header ++ String.join (c.funcs.map funcLine) ++ rule ++ String.join lines

end Lowering.Bytecode.Listing
