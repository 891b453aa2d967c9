import Lowering.Fault
import Lowering.Source.Imports

/-!
# Types in source text

A type is spelled with its packages still open: `spell` gives text and package paths in order, and
`typeText` puts the aliases in. Types of the file's own package, and of no package, are written
bare.
-/

namespace Lowering.Source

/-- A part of a spelled type: text, or the alias of a package. -/
inductive TypePart
  | text (s : String)
  | package (path : String)
  deriving DecidableEq

/-- Spelled types with a separator between neighbours. -/
def joinParts (separator : String) : List (List TypePart) → List TypePart
  | [] => []
  | [parts] => parts
  | parts :: rest => parts ++ [.text separator] ++ joinParts separator rest

/-- The results of a function after its parameters: nothing, one type, or a list. -/
def spellResults : List (List TypePart) → List TypePart
  | [] => []
  | [parts] => .text " " :: parts
  | results => [.text " ("] ++ joinParts ", " results ++ [.text ")"]

/-- A struct with its fields already spelled. -/
def spellStruct : List (List TypePart) → List TypePart
  | [] => [.text "struct\x7b\x7d"]
  | fields => [.text "struct \x7b "] ++ joinParts "; " fields ++ [.text " \x7d"]

mutual

/-- Spells a type in a file of package `self`. A variadic function whose last parameter has no
elements cannot be spelled. -/
def spell (self : String) : Ty → Except Fault (List TypePart)
  | .basic .unsafePointer => .ok [.package "unsafe", .text ".Pointer"]
  | .basic k => .ok [.text k.name]
  | .named pkgPath name _ =>
    if pkgPath.isEmpty || pkgPath == self then .ok [.text name]
    else .ok [.package pkgPath, .text ("." ++ name)]
  | .array n t => do return .text ("[" ++ toString n ++ "]") :: (← spell self t)
  | .slice t => do return .text "[]" :: (← spell self t)
  | .ptr t => do return .text "*" :: (← spell self t)
  | .chan t => do return .text "chan " :: (← spell self t)
  | .map k t => do
    let key ← spell self k
    let elem ← spell self t
    return [.text "map["] ++ key ++ [.text "]"] ++ elem
  | .func ps rs v => do
    let params ← spellParams self ps v
    let results ← spellList self rs
    return [.text "func("] ++ joinParts ", " params ++ [.text ")"] ++ spellResults results
  | .struct fs => do return spellStruct (← spellFields self fs)
  | .interface => .ok [.text "interface\x7b\x7d"]

/-- Spells the element type; nothing for a type without elements. -/
def spellElem? (self : String) : Ty → Option (Except Fault (List TypePart))
  | .array _ t => some (spell self t)
  | .slice t => some (spell self t)
  | .ptr t => some (spell self t)
  | .chan t => some (spell self t)
  | .map _ t => some (spell self t)
  | .named _ _ (.named _ _ _) => none
  | .named _ _ t => spellElem? self t
  | _ => none

def spellList (self : String) : List Ty → Except Fault (List (List TypePart))
  | [] => .ok []
  | t :: ts => do
    let parts ← spell self t
    return parts :: (← spellList self ts)

/-- Spells parameters; the last one of a variadic function by its elements. -/
def spellParams (self : String) :
    List Ty → (variadic : Bool) → Except Fault (List (List TypePart))
  | [], _ => .ok []
  | [t], true =>
    match spellElem? self t with
    | some spelled => do return [.text "..." :: (← spelled)]
    | none => .error (.noElementType t)
  | t :: ts, v => do
    let parts ← spell self t
    return parts :: (← spellParams self ts v)

def spellFields (self : String) : List (String × Ty) → Except Fault (List (List TypePart))
  | [] => .ok []
  | (name, t) :: fs => do
    let parts ← spell self t
    return (.text (name ++ " ") :: parts) :: (← spellFields self fs)

end

namespace TypePart

/-- The packages that a spelled type refers to, in order. -/
def packages (parts : List TypePart) : List String :=
  parts.filterMap fun
    | package path => some path
    | text _ => none

/-- The text of a spelled type once its packages have aliases. -/
def render (m : Imports) (parts : List TypePart) : String :=
  String.join (parts.map fun
    | text s => s
    | package path => m.aliasOf path)

end TypePart

/-- Puts aliases into spelled parts, adding packages that have none yet. -/
def Imports.resolve (m : Imports) (parts : List TypePart) : String × Imports :=
  let m := (TypePart.packages parts).foldl add m
  (TypePart.render m parts, m)

end Lowering.Source
