import Lox.Text.Basic

/-!
# Causes of faults

A cause says what is wrong, without saying where. Three causes come from splitting the source, eight
from reading tokens as a tree and five from evaluation.
-/

namespace Lox

/-- What is wrong. -/
inductive Cause where
  /-- A character that starts no token. -/
  | unexpectedCharacter
  /-- A string without its closing quote. -/
  | unterminatedString
  /-- A number too large for a double. -/
  | invalidNumber
  /-- An expression should begin here. -/
  | expectedExpression
  /-- A declaration lacks the name it declares. -/
  | expectedVariableName
  /-- A grouping is not closed. -/
  | expectedRightParen
  /-- A print statement is not closed. -/
  | expectedSemicolonAfterPrint
  /-- An expression statement is not closed. -/
  | expectedSemicolonAfterExpression
  /-- A declaration is not closed. -/
  | expectedSemicolonAfterDeclaration
  /-- Tokens are left after a complete expression. -/
  | expectedEnd
  /-- Groupings and unary operators are nested past the limit. -/
  | nestingTooDeep
  /-- Negation of something that is no number. -/
  | operandNotNumber
  /-- Arithmetic or comparison of something that is no number. -/
  | operandsNotNumbers
  /-- A sum of neither two numbers nor two strings. -/
  | operandsNotAlike
  /-- A variable without a declaration before it; the name is left out where it does not matter. -/
  | undefinedVariable (name : Option Text)
  /-- An operator that means nothing. -/
  | unknownOperator
  deriving DecidableEq

namespace Cause

/-- The wording of a cause. -/
def message : Cause → Text
  | unexpectedCharacter => "Unexpected character.".toList
  | unterminatedString => "Unterminated string.".toList
  | invalidNumber => "Invalid number literal.".toList
  | expectedExpression => "Expect expression.".toList
  | expectedVariableName => "Expect variable name.".toList
  | expectedRightParen => "Expect \x27)\x27 after expression.".toList
  | expectedSemicolonAfterPrint => "Expect \x27;\x27 after print value.".toList
  | expectedSemicolonAfterExpression => "Expect \x27;\x27 after value.".toList
  | expectedSemicolonAfterDeclaration => "Expect \x27;\x27 after variable declaration.".toList
  | expectedEnd => "Expect end of expression.".toList
  | nestingTooDeep => "Expression nesting too deep.".toList
  | operandNotNumber => "Operand must be a number.".toList
  | operandsNotNumbers => "Operands must be numbers.".toList
  | operandsNotAlike => "Operands must be two numbers or two strings.".toList
  | undefinedVariable none => "Undefined variable".toList
  | undefinedVariable (some name) =>
    "Undefined variable".toList ++ " \x27".toList ++ name ++ "\x27.".toList
  | unknownOperator => "Unknown operator.".toList

/-- The cause without the name it concerns. -/
def general : Cause → Cause
  | undefinedVariable _ => undefinedVariable none
  | cause => cause

end Cause

end Lox
