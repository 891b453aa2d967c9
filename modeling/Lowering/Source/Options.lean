import Lowering.Wire.Primitive

/-!
# Options of the source backend

How the rendered file looks. Options can be stored in the wire format.
-/

namespace Lowering.Source

open Wire

/-- How a source file is rendered. -/
structure Options where
  /-- The name of the package. -/
  package : String := "main"
  /-- The function that receives the statements of the top level. -/
  mainFunc : String := "main"
  /-- Whether statements with a position are preceded by a line directive. -/
  lineDirectives : Bool := true
  /-- What one level of indentation is written as. -/
  indent : String := "\t"
  deriving DecidableEq

namespace Options

def toBytes (o : Options) : List UInt8 :=
  putString o.package ++ putString o.mainFunc ++ putBool o.lineDirectives ++ putString o.indent

def read : Reader Options := do
  let package ← readString
  let mainFunc ← readString
  let lineDirectives ← readBool
  return { package, mainFunc, lineDirectives, indent := ← readString }

/-- Reads options from the front of some bytes. -/
def ofBytes (bytes : List UInt8) : Except WireError Options := run read bytes

end Options

end Lowering.Source
