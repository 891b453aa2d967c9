import Lowering.Ieee.Double
import Lowering.Ieee.Shortest

/-!
# Texts of floating-point data

Three texts of a datum, all from its shortest decimal:

* `display` is positional whatever the size, and writes an integral datum without a point;
* `literal` marks every integral datum below `10^21` as a float by `.0`, after its exact digits;
* `describe` always shows a point or an exponent, and leaves positional form at `10^16` and `10^-4`.
-/

namespace Lowering.Binary

variable {p : Precision}

/-- The minus sign of a negative number. -/
def signText (negative : Bool) : String := if negative then "-" else ""

def display (x : Binary p) : String :=
  match x.read with
  | .nan => "NaN"
  | .infinite negative => signText negative ++ "inf"
  | .finite negative 0 _ => signText negative ++ "0"
  | .finite negative m q => signText negative ++ (Decimal.shortest p m q).positional

/-- Integral data are written with their exact digits up to here. -/
def exactLimit : Nat := 10 ^ 21

def literal (x : Double) : String :=
  match x.integer? with
  | some z =>
    if z.natAbs < exactLimit then
      signText x.negative ++ toString z.natAbs ++ ".0"
    else x.display
  | none => x.display

/-- The digit count of a decimal's integral part; zero or less below one tenth. -/
def leadingPlace (d : Decimal) : Int :=
  (RoundingInterval.digitCount d.coefficient : Int) + d.exponent

def describe (x : Binary p) : String :=
  match x.read with
  | .nan => "NaN"
  | .infinite negative => signText negative ++ "inf"
  | .finite negative 0 _ => signText negative ++ "0.0"
  | .finite negative m q =>
    let d := Decimal.shortest p m q
    let text :=
      if 16 < leadingPlace d ∨ leadingPlace d < -3 then d.scientific
      else if 0 ≤ d.exponent then d.positional ++ ".0"
      else d.positional
    signText negative ++ text

end Lowering.Binary
