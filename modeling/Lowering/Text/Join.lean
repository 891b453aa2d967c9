/-!
# Joined texts

Lists are written with a separator between neighbours.
-/

namespace Lowering.Text

/-- The items in order, with `separator` between neighbours. -/
def join (separator : String) : List String → String
  | [] => ""
  | [s] => s
  | s :: rest => s ++ separator ++ join separator rest

end Lowering.Text
