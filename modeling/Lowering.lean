import Lowering.Bytecode.Builder
import Lowering.Bytecode.Codec
import Lowering.Bytecode.Listing
import Lowering.Constant.Expr
import Lowering.ElementType
import Lowering.Proofs.Bytecode.Jumps
import Lowering.Proofs.Bytecode.Reservation
import Lowering.Proofs.Bytecode.Variables
import Lowering.Proofs.Bytecode.Bookkeeping
import Lowering.Proofs.Bytecode.FunctionTable
import Lowering.Proofs.Bytecode.Statements
import Lowering.Proofs.Constant.OpenInteger
import Lowering.Proofs.Constant.Soundness
import Lowering.Proofs.Constant.Stored
import Lowering.Proofs.Constant.Convertible
import Lowering.Proofs.Constant.OperandOrder
import Lowering.Source.File
import Lowering.Proofs.Registry
import Lowering.Proofs.ElementType
import Lowering.Proofs.ElementType.Order
import Lowering.Proofs.Wire.Encoding
import Lowering.Proofs.Wire.Ty
import Lowering.Proofs.Bytecode.Codec
import Lowering.Proofs.Source.Rendering
import Lowering.Proofs.Source.Deferral
import Lowering.Proofs.Go.Grammar
import Lowering.Proofs.Go.Arithmetic
import Lowering.Proofs.Go.Statement
import Lowering.Proofs.Go.Types
import Lowering.Proofs.StraightLine.Agreement
import Lowering.Proofs.Source.Parenthesization
import Lowering.Proofs.Source.Acceptance
import Lowering.Proofs.Integer.Word
import Lowering.Proofs.Integer.Conversion
import Lowering.Proofs.Integer.Evaluation
import Lowering.Proofs.Go.Lexical
import Lowering.Proofs.Source.Lexing
import Lowering.Proofs.Go.Literal
import Lowering.Proofs.Source.Literals
import Lowering.Proofs.Source.Stack
import Lowering.Proofs.Source.Switch
import Lowering.Proofs.Source.Packages
import Lowering.Proofs.Source.Growth
import Lowering.Proofs.Source.TypeText
import Lowering.Proofs.Source.Imports
import Lowering.Proofs.Source.Statements
import Lowering.Proofs.Source.Directives
