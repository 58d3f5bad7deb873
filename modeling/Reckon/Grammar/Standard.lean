import Reckon.Builtin
import Reckon.Grammar
import Reckon.Numeric

/-!
# The standard grammar

The names of the built-in operators and of the standard constants.
-/

namespace Reckon

/-- The standard constants. Truth values are numbers. -/
def standardConstants : List (String × Literal) :=
  [("E", .number Numeric.e), ("PI", .number Numeric.pi), ("true", .number 1), ("false", .number 0)]

/-- The grammar of the standard environment. -/
def Grammar.standard : Grammar where
  isUnary name := UnaryOp.all.any fun op => op.name = name
  isBinary name := BinaryOp.all.any fun op => op.name = name
  isTernary name := TernaryOp.all.any fun op => op.name = name
  constant? name := standardConstants.lookup name

end Reckon
