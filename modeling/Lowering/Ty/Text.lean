import Lowering.Text.Join
import Lowering.Text.Path
import Lowering.Ty

/-!
# Texts of types

`Ty.text` is how messages and listings write a type. A named type shows the last segment of its
package path; a variadic function shows the element type of its last parameter after three dots.
-/

namespace Lowering

namespace Ty

/-- A name after the package it belongs to; bare if the package has no name. -/
def qualify (package name : String) : String :=
  if package.isEmpty then name else package ++ "." ++ name

/-- The results of a function after its parameters: nothing, one type, or a list. -/
def resultsSuffix : List String → String
  | [] => ""
  | [r] => " " ++ r
  | rs => " (" ++ Text.join ", " rs ++ ")"

/-- A struct with its fields already written. -/
def structText : List String → String
  | [] => "struct \x7b\x7d"
  | fs => "struct \x7b " ++ Text.join "; " fs ++ " \x7d"

mutual

/-- The text of a type in messages and listings. -/
def text : Ty → String
  | .basic k => k.name
  | .named pkgPath name _ => qualify (Text.lastSegment pkgPath) name
  | .array n e => "[" ++ toString n ++ "]" ++ text e
  | .slice e => "[]" ++ text e
  | .map k e => "map[" ++ text k ++ "]" ++ text e
  | .ptr e => "*" ++ text e
  | .chan e => "chan " ++ text e
  | .func ps rs v =>
    "func(" ++ Text.join ", " (paramTexts ps v) ++ ")" ++ resultsSuffix (texts rs)
  | .interface => "interface\x7b\x7d"
  | .struct fs => structText (fieldTexts fs)

/-- The text of the element type, for the types that `elem?` gives one. -/
def elemText? : Ty → Option String
  | .array _ e => some (text e)
  | .slice e => some (text e)
  | .map _ e => some (text e)
  | .ptr e => some (text e)
  | .chan e => some (text e)
  | .named _ _ (.named _ _ _) => none
  | .named _ _ t => elemText? t
  | _ => none

def texts : List Ty → List String
  | [] => []
  | t :: ts => text t :: texts ts

/-- Parameters; the last one of a variadic function by its elements. -/
def paramTexts : List Ty → (variadic : Bool) → List String
  | [], _ => []
  | [t], true => ["..." ++ (elemText? t).getD (text t)]
  | t :: ts, v => text t :: paramTexts ts v

def fieldTexts : List (String × Ty) → List String
  | [] => []
  | (name, t) :: fs => (name ++ " " ++ text t) :: fieldTexts fs

end

/-- A request for a parameter or a result that a type does not have. -/
inductive PositionError
  | parameter (i : Nat) (t : Ty)
  | result (i : Nat) (t : Ty)

def PositionError.message : PositionError → String
  | .parameter i t => "Type::in_: no parameter " ++ toString i ++ " in " ++ t.text
  | .result i t => "Type::out: no result " ++ toString i ++ " in " ++ t.text

/-- The type of parameter `i`. -/
def param (t : Ty) (i : Nat) : Except PositionError Ty :=
  t.params[i]?.elim (.error (.parameter i t)) .ok

/-- The type of result `i`. -/
def result (t : Ty) (i : Nat) : Except PositionError Ty :=
  t.results[i]?.elim (.error (.result i t)) .ok

end Ty

end Lowering
