import Lowering.Kind

/-!
# Types

The type of a value that is known before the program runs. Types are compared structurally; a named
type also compares the type under its name. `Ty.defined` builds named types whose underlying type
has no name itself; the constructor `named` alone does not promise that.

Main statement: `beq_iff_eq`, which makes structural equality decidable.
-/

namespace Lowering

/-- A type. Of interfaces only the empty one has a structure. -/
inductive Ty
  | basic (k : Kind)
  | named (pkgPath name : String) (underlying : Ty)
  | array (len : Nat) (elem : Ty)
  | slice (elem : Ty)
  | map (key elem : Ty)
  | ptr (elem : Ty)
  | chan (elem : Ty)
  | func (params results : List Ty) (variadic : Bool)
  | interface
  | struct (fields : List (String × Ty))
  deriving Inhabited

/-- The parameter and result types of a function type. If `variadic`, the last parameter collects
the remaining arguments. -/
structure Signature where
  params : List Ty
  results : List Ty
  variadic : Bool

namespace Ty

/-! ## Equality -/

mutual

/-- Structural equality, as a test. -/
def beq : Ty → Ty → Bool
  | .basic k, .basic l => k == l
  | .named p n t, .named q m u => p == q && n == m && beq t u
  | .array n t, .array m u => n == m && beq t u
  | .slice t, .slice u => beq t u
  | .map k t, .map l u => beq k l && beq t u
  | .ptr t, .ptr u => beq t u
  | .chan t, .chan u => beq t u
  | .func ps rs v, .func qs ss w => beqList ps qs && beqList rs ss && v == w
  | .interface, .interface => true
  | .struct fs, .struct gs => beqFields fs gs
  | _, _ => false

def beqList : List Ty → List Ty → Bool
  | [], [] => true
  | t :: ts, u :: us => beq t u && beqList ts us
  | _, _ => false

def beqFields : List (String × Ty) → List (String × Ty) → Bool
  | [], [] => true
  | (n, t) :: fs, (m, u) :: gs => n == m && beq t u && beqFields fs gs
  | _, _ => false

end

mutual

theorem beq_iff_eq : ∀ t u : Ty, beq t u = true ↔ t = u
  | .basic k, u => by cases u <;> simp [beq]
  | .named p n t, u => by
    cases u <;> simp [beq]
    rename_i q m u
    simp [beq_iff_eq t u, and_assoc]
  | .array n t, u => by
    cases u <;> simp [beq]
    rename_i m u
    simp [beq_iff_eq t u]
  | .slice t, u => by
    cases u <;> simp [beq]
    rename_i u
    simp [beq_iff_eq t u]
  | .map k t, u => by
    cases u <;> simp [beq]
    rename_i l u
    simp [beq_iff_eq k l, beq_iff_eq t u]
  | .ptr t, u => by
    cases u <;> simp [beq]
    rename_i u
    simp [beq_iff_eq t u]
  | .chan t, u => by
    cases u <;> simp [beq]
    rename_i u
    simp [beq_iff_eq t u]
  | .func ps rs v, u => by
    cases u <;> simp [beq]
    rename_i qs ss w
    simp [beqList_iff_eq ps qs, beqList_iff_eq rs ss, and_assoc]
  | .interface, u => by cases u <;> simp [beq]
  | .struct fs, u => by
    cases u <;> simp [beq]
    rename_i gs
    simp [beqFields_iff_eq fs gs]

theorem beqList_iff_eq : ∀ ts us : List Ty, beqList ts us = true ↔ ts = us
  | [], us => by cases us <;> simp [beqList]
  | t :: ts, us => by
    cases us with
    | nil => simp [beqList]
    | cons u us => simp [beqList, beq_iff_eq t u, beqList_iff_eq ts us]

theorem beqFields_iff_eq : ∀ fs gs : List (String × Ty), beqFields fs gs = true ↔ fs = gs
  | [], gs => by cases gs <;> simp [beqFields]
  | (n, t) :: fs, gs => by
    cases gs with
    | nil => simp [beqFields]
    | cons g gs =>
      obtain ⟨m, u⟩ := g
      simp [beqFields, beq_iff_eq t u, beqFields_iff_eq fs gs]

end

instance : DecidableEq Ty := fun t u => decidable_of_iff _ (beq_iff_eq t u)

/-! ## Basic types -/

def bool : Ty := .basic .bool

def string : Ty := .basic .string

def integer (k : IntKind) : Ty := .basic (.integer k)

def int : Ty := integer .int

/-- The type that a kind names by itself: a basic type or the empty interface. -/
def ofKind? (k : Kind) : Option Ty :=
  if k.isBasic then some (.basic k)
  else if k = .interface then some .interface
  else none

/-! ## Structure -/

/-- The type under a type's name; any other type is its own. -/
def underlying : Ty → Ty
  | named _ _ t => t
  | t => t

/-- The named type with the structure of `t`. -/
def defined (pkgPath name : String) (t : Ty) : Ty := named pkgPath name t.underlying

def kind : Ty → Kind
  | basic k => k
  | named _ _ t => t.kind
  | array _ _ => .array
  | slice _ => .slice
  | map _ _ => .map
  | ptr _ => .ptr
  | chan _ => .chan
  | func _ _ _ => .func
  | interface => .interface
  | struct _ => .struct

def isNamed : Ty → Bool
  | named _ _ _ => true
  | _ => false

/-- Whether values of every kind are accepted as they are. A named interface is not meant. -/
def isEmptyInterface : Ty → Bool
  | interface => true
  | _ => false

/-- The package path and the name of a named type. -/
def name? : Ty → Option (String × String)
  | named pkgPath name _ => some (pkgPath, name)
  | _ => none

/-- The element type of arrays, slices, maps, pointers and channels. -/
def elem? (t : Ty) : Option Ty :=
  match t.underlying with
  | array _ e | slice e | map _ e | ptr e | chan e => some e
  | _ => none

/-- The key type of maps. -/
def key? (t : Ty) : Option Ty :=
  match t.underlying with
  | map k _ => some k
  | _ => none

def arrayLen? (t : Ty) : Option Nat :=
  match t.underlying with
  | array n _ => some n
  | _ => none

def fields? (t : Ty) : Option (List (String × Ty)) :=
  match t.underlying with
  | struct fs => some fs
  | _ => none

def signature? (t : Ty) : Option Signature :=
  match t.underlying with
  | func ps rs v => some ⟨ps, rs, v⟩
  | _ => none

/-- The parameter types of a function type; none for other types. -/
def params (t : Ty) : List Ty := t.signature?.elim [] (·.params)

/-- The result types of a function type; none for other types. -/
def results (t : Ty) : List Ty := t.signature?.elim [] (·.results)

def isVariadic (t : Ty) : Bool := t.signature?.elim false (·.variadic)

end Ty

end Lowering
