/-!
# Paths

Package paths are texts whose segments are divided by slashes.
-/

namespace Lowering.Text

/-- What follows the last slash; the whole text if there is none. -/
def lastSegment (path : String) : String :=
  String.ofList (path.toList.reverse.takeWhile (· ≠ '/')).reverse

end Lowering.Text
