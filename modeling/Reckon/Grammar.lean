import Reckon.Literal

/-!
# Grammars

Which names are operators or constants. Symbolic operators are tokens in every grammar; a grammar decides which
words are operators, which operators stand in front of an operand, and what the constants are.
-/

namespace Reckon

/-- The names that have a meaning of their own. -/
structure Grammar where
  /-- Operators with one operand. -/
  isUnary : String → Bool
  /-- Operators with two operands. -/
  isBinary : String → Bool
  /-- Operators with three operands. -/
  isTernary : String → Bool
  /-- Names that stand for a literal. -/
  constant? : String → Option Literal

/-- An operator of any number of operands. -/
def Grammar.isOperator (g : Grammar) (name : String) : Bool :=
  g.isUnary name || g.isBinary name || g.isTernary name

end Reckon
