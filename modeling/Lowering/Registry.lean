import Lowering.Fault

/-!
# Registry of native packages

Native packages offer functions, variadic functions, variables, types and constants. Functions and
variables have an address: their place in the table of their sort, in order of registration. A name
that is registered again refers to the newer symbol; the older one keeps its address.

The registry also numbers the entities of a program: one counter serves all of them.
-/

namespace Lowering

/-- A native function or variable. -/
structure Native where
  pkgPath : String
  name : String
  ty : Ty
  deriving DecidableEq

/-- A native constant. An untyped constant has one of the open kinds. -/
structure NativeConst where
  pkgPath : String
  name : String
  kind : Kind
  value : Value
  deriving DecidableEq

/-- The names of one package. The newest entry of a name comes first. -/
structure Package where
  path : String
  symbols : List (String × Nat × SymbolKind) := []
  types : List (String × Ty) := []
  consts : List (String × NativeConst) := []

namespace Package

/-- The address and the sort of a function or variable. -/
def find? (p : Package) (name : String) : Option (Nat × SymbolKind) := p.symbols.lookup name

/-- The address of the symbol, if it is of sort `kind`. -/
def findAs? (p : Package) (kind : SymbolKind) (name : String) : Option Nat :=
  match p.find? name with
  | some (address, k) => if k = kind then some address else none
  | none => none

def findType? (p : Package) (name : String) : Option Ty := p.types.lookup name

def findConst? (p : Package) (name : String) : Option NativeConst := p.consts.lookup name

end Package

/-- One entry of a package, as it is registered. -/
inductive Registration
  | symbol (kind : SymbolKind) (name : String) (ty : Ty)
  | type (name : String) (ty : Ty)
  | const (name : String) (kind : Kind) (value : Value)

/-- Native packages, the tables of their symbols, and the number of the next entity. -/
structure Registry where
  packages : List (String × Package) := []
  funcs : Array Native := #[]
  variadicFuncs : Array Native := #[]
  vars : Array Native := #[]
  nextId : Nat := 1

namespace Registry

/-! ## Registration -/

/-- The package at a path; a new one if there is none. -/
def openPackage (r : Registry) (path : String) : Package :=
  (r.packages.lookup path).getD { path := path }

/-- The table of a sort of symbols. -/
def table (r : Registry) : SymbolKind → Array Native
  | .func => r.funcs
  | .variadicFunc => r.variadicFuncs
  | .var => r.vars

/-- Appends to the table of a sort. -/
def pushNative (r : Registry) (n : Native) : SymbolKind → Registry
  | .func => { r with funcs := r.funcs.push n }
  | .variadicFunc => { r with variadicFuncs := r.variadicFuncs.push n }
  | .var => { r with vars := r.vars.push n }

/-- Puts a package in place of the one at its path. -/
def putPackage (r : Registry) (p : Package) : Registry :=
  { r with packages := (p.path, p) :: r.packages.filter (·.1 ≠ p.path) }

/-- Adds a function or a variable to the package at `path` and hands out its address: the number of
symbols of its sort before it, in 32 bits. A variadic function needs a variadic type. -/
def declare (r : Registry) (path : String) (kind : SymbolKind) (name : String) (ty : Ty) :
    Except Fault (Nat × Registry) :=
  if kind = .variadicFunc ∧ !ty.isVariadic then .error (.notVariadic name ty)
  else
    let p := r.openPackage path
    let address := (r.table kind).size % 2 ^ 32
    let r := r.pushNative ⟨path, name, ty⟩ kind
    .ok (address, r.putPackage { p with symbols := (name, address, kind) :: p.symbols })

/-- Adds one entry to the package at `path`. -/
def register (r : Registry) (path : String) : Registration → Except Fault Registry
  | .symbol kind name ty => do return (← r.declare path kind name ty).2
  | .type name ty =>
    let p := r.openPackage path
    .ok (r.putPackage { p with types := (name, .defined path name ty) :: p.types })
  | .const name kind value =>
    let p := r.openPackage path
    .ok (r.putPackage { p with consts := (name, ⟨path, name, kind, value⟩) :: p.consts })

/-- Adds entries to the package at `path`, which exists afterwards even if there are none. -/
def extend (r : Registry) (path : String) (entries : List Registration) :
    Except Fault Registry :=
  entries.foldlM (fun r entry => r.register path entry) (r.putPackage (r.openPackage path))

/-- The registry of a list of packages. A path may occur several times. -/
def build (packages : List (String × List Registration)) : Except Fault Registry :=
  packages.foldlM (fun r package => r.extend package.1 package.2) {}

/-! ## Lookup -/

def package? (r : Registry) (path : String) : Option Package := r.packages.lookup path

/-- The symbol of a sort at an address. -/
def native (r : Registry) (kind : SymbolKind) (address : Nat) : Except Fault Native :=
  (r.table kind)[address]?.elim (.error (.noNative kind address)) .ok

/-! ## Numbering -/

def newVar (r : Registry) (ty : Ty) (name : String) : Var × Registry :=
  (⟨r.nextId, name, ty⟩, { r with nextId := r.nextId + 1 })

def newLabel (r : Registry) (name : String) : Label × Registry :=
  (⟨r.nextId, name⟩, { r with nextId := r.nextId + 1 })

def newForPhrase (r : Registry) (container : Ty) : ForPhrase × Registry :=
  (⟨r.nextId, container⟩, { r with nextId := r.nextId + 1 })

def newComprehension (r : Registry) (out : Ty) : Comprehension × Registry :=
  (⟨r.nextId, out⟩, { r with nextId := r.nextId + 1 })

def newFunc (r : Registry) (name : String) (nestDepth : Nat) : Func × Registry :=
  ({ id := r.nextId, name := name, nestDepth := nestDepth }, { r with nextId := r.nextId + 1 })

end Registry

end Lowering
