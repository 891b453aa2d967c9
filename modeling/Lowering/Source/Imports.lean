import Lowering.Text.CharClass
import Lowering.Text.Path

/-!
# Imported packages

Every package path that the source refers to gets an alias: the last segment of the path, made an
identifier, and with a number from 2 on if that is taken. A path keeps its alias.
-/

namespace Lowering.Source

/-- Paths and their aliases, in the order in which they were needed. -/
structure Imports where
  entries : List (String × String) := []

namespace Imports

def aliases (m : Imports) : List String := m.entries.map (·.2)

/-- The last segment of a path, with an underscore for every character that no name may have. -/
def baseAlias (path : String) : String :=
  String.ofList ((Text.lastSegment path).toList.map fun c =>
    if Text.isAlphanumeric c || c = '_' then c else '_')

/-- Candidates for an alias: the base itself, then the base with 2, 3 and so on. -/
def candidate (base : String) : (n : Nat) → String
  | 0 => base
  | n + 1 => base ++ toString (n + 2)

/-- The first of `count` candidates from number `n` on that is not taken. -/
def firstFree (taken : List String) (base : String) : (n count : Nat) → String
  | n, 0 => candidate base n
  | n, count + 1 =>
    if taken.contains (candidate base n) then firstFree taken base (n + 1) count
    else candidate base n

/-- An alias for a new path. More candidates than taken aliases are tried, so one is free. -/
def freshAlias (m : Imports) (path : String) : String :=
  firstFree m.aliases (baseAlias path) 0 m.entries.length

/-- Makes sure that a path has an alias. -/
def add (m : Imports) (path : String) : Imports :=
  if (m.entries.lookup path).isSome then m
  else ⟨m.entries ++ [(path, m.freshAlias path)]⟩

/-- The alias of a path that has been added. -/
def aliasOf (m : Imports) (path : String) : String := (m.entries.lookup path).getD ""

/-- The entries ordered by path. -/
def sorted (m : Imports) : List (String × String) :=
  m.entries.mergeSort fun a b => !decide (b.1 < a.1)

/-- The import clause of a file: nothing, one line, or a list. -/
def clause (m : Imports) : String :=
  match m.sorted with
  | [] => ""
  | [(path, name)] => "import " ++ name ++ " \"" ++ path ++ "\"\n\n"
  | entries =>
    "import (\n" ++
      String.join (entries.map fun (path, name) => "\t" ++ name ++ " \"" ++ path ++ "\"\n") ++
      ")\n\n"

end Imports

end Lowering.Source
