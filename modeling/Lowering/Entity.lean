import Lowering.Ty

/-!
# Program entities

Variables, labels, for phrases, comprehensions and functions of the program under construction.
Each has an identity, its number; everything else about it is fixed when it is made. Backends keep
what they know about an entity under that number.
-/

namespace Lowering

/-- A variable. -/
structure Var where
  id : Nat
  name : String
  ty : Ty
  deriving DecidableEq

namespace Var

/-- The variable of the result at `index` of a function that does not name its results. -/
def unnamedResult (id : Nat) (ty : Ty) (index : Nat) : Var := ⟨id, toString index, ty⟩

/-- Unnamed results go by their place, so a name that starts with a digit is one. -/
def isUnnamedResult (v : Var) : Bool :=
  match v.name.toList with
  | c :: _ => c.isDigit
  | [] => false

end Var

/-- A jump target. -/
structure Label where
  id : Nat
  name : String
  deriving DecidableEq

/-- A loop over the elements of a container. -/
structure ForPhrase where
  id : Nat
  container : Ty
  deriving DecidableEq

/-- A list or a map that is built element by element. -/
structure Comprehension where
  id : Nat
  out : Ty
  deriving DecidableEq

/-- A function of the program. `nestDepth` is zero for functions at package level. -/
structure Func where
  id : Nat
  name : String
  nestDepth : Nat
  params : List Ty := []
  results : List Var := []
  variadic : Bool := false
  deriving DecidableEq

namespace Func

/-- The function with fixed parameters. -/
def withParams (f : Func) (params : List Ty) : Func :=
  { f with params := params, variadic := false }

/-- The function whose last parameter collects the remaining arguments. -/
def withVariadicParams (f : Func) (params : List Ty) : Func :=
  { f with params := params, variadic := true }

/-- The function with result variables. -/
def withResults (f : Func) (results : List Var) : Func := { f with results := results }

def ty (f : Func) : Ty := .func f.params (f.results.map (·.ty)) f.variadic

/-- Whether the results go by their place. The first result decides for all. -/
def hasUnnamedResults (f : Func) : Bool :=
  match f.results with
  | r :: _ => r.isUnnamedResult
  | [] => false

end Func

/-- A position in a source file. -/
structure SourcePos where
  file : String
  line : Nat
  deriving DecidableEq

/-- A place in a backend's output that is filled later. It belongs to one builder. -/
structure Reservation where
  builder : Nat
  position : Nat
  deriving DecidableEq

/-- What a native symbol is. -/
inductive SymbolKind
  | var | func | variadicFunc
  deriving DecidableEq, Repr

end Lowering
