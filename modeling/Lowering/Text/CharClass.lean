import Lowering.Text.Alphabetic
import Lowering.Text.Hidden
import Lowering.Text.Numeric

/-!
# Character classes

Classes of characters of every script, each a table of code point ranges.
-/

namespace Lowering.Text

/-- Whether a code point lies in one of the ranges. -/
def inRanges (ranges : List (Nat × Nat)) (c : Char) : Bool :=
  ranges.any fun range => range.1 ≤ c.toNat && c.toNat ≤ range.2

/-- Letters of every script. -/
def isAlphabetic (c : Char) : Bool := inRanges alphabeticRanges c

/-- Letters and numbers of every script. -/
def isAlphanumeric (c : Char) : Bool := isAlphabetic c || inRanges numericRanges c

/-- Characters that a printed text cannot show by themselves. -/
def isHidden (c : Char) : Bool := inRanges hiddenRanges c

end Lowering.Text
