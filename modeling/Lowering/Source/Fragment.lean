import Lowering.Operator
import Lowering.Value.Text

/-!
# Fragments of source text

An expression under construction is a list of pieces: text, and slots for constants that are not
known yet. A fragment also knows how tightly its outermost operator binds, which decides where it
needs parentheses, and whether it is a call, which may stand alone as a statement.

How a text is cut into pieces has no meaning: everything here depends on the text between the slots
only.
-/

namespace Lowering.Source

/-- A part of the output: text, or a slot that a constant fills. -/
inductive Piece
  | text (s : String)
  | slot (i : Nat)
  deriving DecidableEq

namespace Piece

/-- The text before the first slot. -/
def leadingText : List Piece → String
  | text s :: rest => s ++ leadingText rest
  | _ => ""

/-- The whole text, if there is no slot in it. -/
def plainText? : List Piece → Option String
  | [] => some ""
  | text s :: rest => (plainText? rest).map (s ++ ·)
  | slot _ :: _ => none

end Piece

/-- Whether a text starts with another. -/
def startsWith (start s : String) : Bool := start.toList.isPrefixOf s.toList

/-- Binding strength of what never needs parentheses. -/
def primaryPrecedence : Nat := 7

/-- An expression with its binding strength. -/
structure Fragment where
  pieces : List Piece
  precedence : Nat := primaryPrecedence
  isCall : Bool := false
  deriving DecidableEq

namespace Fragment

/-- A name, a literal or whatever else holds together by itself. -/
def primary (s : String) : Fragment := { pieces := [.text s] }

/-- A constant that is filled in later. -/
def slot (i : Nat) : Fragment := { pieces := [.slot i] }

/-- The pieces where an operand of strength `least` or more is needed: in parentheses if the
fragment binds looser. -/
def asOperand (e : Fragment) (least : Nat) : List Piece :=
  if e.precedence < least then [.text "("] ++ e.pieces ++ [.text ")"] else e.pieces

/-- Fragments with commas between them. -/
def commaList : List Fragment → List Piece
  | [] => []
  | [e] => e.pieces
  | e :: rest => e.pieces ++ [.text ", "] ++ commaList rest

/-- An operator before its operand. -/
def unary (op : String) (x : Fragment) : Fragment :=
  { pieces := [.text op] ++ x.asOperand Operator.unaryPrecedence
    precedence := Operator.unaryPrecedence }

/-- An operator between its operands. It associates to the left, so the right operand must bind
more tightly. -/
def binary (x : Fragment) (op : String) (y : Fragment) (precedence : Nat) : Fragment :=
  { pieces := x.asOperand precedence ++ [.text (" " ++ op ++ " ")] ++ y.asOperand (precedence + 1)
    precedence := precedence }

/-- A call; the last argument may be spread. -/
def call (head : Fragment) (args : List Fragment) (ellipsis : Bool) : Fragment :=
  { pieces := head.asOperand primaryPrecedence ++ [.text "("] ++ commaList args ++
      (if ellipsis then [.text "..."] else []) ++ [.text ")"]
    isCall := true }

/-- An element of a container. -/
def index (x i : Fragment) : Fragment :=
  { pieces := x.asOperand primaryPrecedence ++ [.text "["] ++ i.pieces ++ [.text "]"] }

/-- Bounds with colons between them; one that is left out is empty. -/
def colonList : List (Option Fragment) → List Piece
  | [] => []
  | [b] => b.elim [] (·.pieces)
  | b :: rest => b.elim [] (·.pieces) ++ [.text ":"] ++ colonList rest

/-- A part of a container. -/
def slice (x : Fragment) (bounds : List (Option Fragment)) : Fragment :=
  { pieces := x.asOperand primaryPrecedence ++ [.text "["] ++ colonList bounds ++ [.text "]"] }

/-- A list literal of a written type. -/
def listLiteral (type : String) (elements : List Fragment) : Fragment :=
  { pieces := [.text type, .text "\x7b"] ++ commaList elements ++ [.text "\x7d"] }

/-- Keys and values in turn, as the entries of a map literal. -/
def entryList : List Fragment → List Piece
  | key :: val :: [] => key.pieces ++ [.text ": "] ++ val.pieces
  | key :: val :: rest =>
    key.pieces ++ [.text ": "] ++ val.pieces ++ [.text ", "] ++ entryList rest
  | _ => []

/-- A map literal of a written type. -/
def mapLiteral (type : String) (items : List Fragment) : Fragment :=
  { pieces := [.text type, .text "\x7b"] ++ entryList items ++ [.text "\x7d"] }

/-- A conversion to a written type. Types that a parenthesis could attach to are enclosed. -/
def conversion (type : String) (x : Fragment) : Fragment :=
  let head :=
    if startsWith "*" type || startsWith "func" type || startsWith "chan" type then
      "(" ++ type ++ ")"
    else type
  { pieces := [.text head, .text "("] ++ x.pieces ++ [.text ")"] }

/-- The address of a variable. -/
def address (name : String) : Fragment :=
  { pieces := [.text ("&" ++ name)], precedence := Operator.unaryPrecedence }

/-- What an address points to. The address of a variable is undone by leaving out its mark. -/
def dereference (p : Fragment) : Fragment :=
  match (Piece.plainText? p.pieces).map String.toList with
  | some ('&' :: name) => primary (String.ofList name)
  | _ => unary "*" p

/-- Whether the fragment may be evaluated more than once. -/
def isSimple (e : Fragment) : Bool := e.precedence == primaryPrecedence && !e.isCall

end Fragment

/-! ## Literals -/

/-- A constant in source text. Kinds that a plain literal does not have by itself are stated. -/
def literalText (v : Value) : String :=
  match v with
  | .bool _ | .string _ => v.literal
  | .integer .int _ _ | .float .double _ | .complex .double _ _ => v.literal
  | _ => v.kind.name ++ "(" ++ v.literal ++ ")"

/-- The zero of a basic kind. -/
def zeroText? : Kind → Option String
  | .bool => some (literalText (.bool false))
  | .string => some (literalText (.string ""))
  | .integer k => some (literalText (.integer k 0 k.fits_zero))
  | .float p => some (literalText (.float p (.zero p)))
  | .complex p => some (literalText (.complex p (.zero p) (.zero p)))
  | _ => none

end Lowering.Source
