import Lowering.Ieee.Text
import Lowering.Text.Quoted
import Lowering.Value

/-!
# Texts of values

* `literal` is the constant as source text writes it, without its kind.
* `display` is the literal, but a string stands bare.
* `describe` names the payload's kind as well: `Int8(1)`, `Float64(1.5)`.
-/

namespace Lowering

/-- A complex constant: both parts in parentheses, a negative imaginary part as a difference. -/
def Complex.literal (c : Complex) : String :=
  if c.im.lt (.zero _) then "(" ++ c.re.display ++ " - " ++ c.im.neg.display ++ "i)"
  else "(" ++ c.re.display ++ " + " ++ c.im.display ++ "i)"

namespace Value

def literal : Value → String
  | bool b => if b then "true" else "false"
  | integer _ z _ => toString z
  | float _ x => x.toDouble.literal
  | complex _ re im => Complex.literal ⟨re.toDouble, im.toDouble⟩
  | string s => Text.quote s

def display : Value → String
  | string s => s
  | v => v.literal

/-- The capitalised kind of a payload. -/
def label : Value → String
  | bool _ => "Bool"
  | integer .int _ _ => "Int"
  | integer .int8 _ _ => "Int8"
  | integer .int16 _ _ => "Int16"
  | integer .int32 _ _ => "Int32"
  | integer .int64 _ _ => "Int64"
  | integer .uint _ _ => "Uint"
  | integer .uint8 _ _ => "Uint8"
  | integer .uint16 _ _ => "Uint16"
  | integer .uint32 _ _ => "Uint32"
  | integer .uint64 _ _ => "Uint64"
  | integer .uintptr _ _ => "Uintptr"
  | float .single _ => "Float32"
  | float .double _ => "Float64"
  | complex .single _ _ => "Complex64"
  | complex .double _ _ => "Complex128"
  | string _ => "String"

/-- The payload inside a description. -/
def describePayload : Value → String
  | bool b => if b then "true" else "false"
  | integer _ z _ => toString z
  | float _ x => x.describe
  | complex _ re im =>
    "Complex \x7b re: " ++ re.describe ++ ", im: " ++ im.describe ++ " \x7d"
  | string s => Text.describe s

def describe (v : Value) : String := v.label ++ "(" ++ v.describePayload ++ ")"

end Value

end Lowering
