import Lox.Tree.Basic

/-!
# Trees in reverse Polish order

Operands come before their operator and no parentheses are needed: `(1 + 2) * -3` becomes
`1 2 + 3 ~ *`. Unary minus is written as a tilde to tell it from subtraction, and a grouping is
written as what it holds.
-/

namespace Lox

/-- A text without the space it ends with, if it ends with one. -/
def trimSpace (text : Text) : Text := if text.getLast? = some ' ' then text.dropLast else text

/-- Operands, each followed by a space, and a name after them; a name may be empty. -/
def postfixed (operands : List Text) (name : Text) : Text :=
  trimSpace (operands.flatMap (fun operand => operand ++ [' ']) ++ name)

/-- The name of a unary operator in reverse Polish order. -/
def unaryName (operator : Token) : Text :=
  if operator.kind = .minus then ['~'] else operator.lexeme

/-- An expression in reverse Polish order. -/
def Expr.reversePolish : Expr → Text
  | literal value => Value.dumpOf value
  | grouping inner => postfixed [inner.reversePolish] []
  | unary operator operand => postfixed [operand.reversePolish] (unaryName operator)
  | binary left operator right =>
    postfixed [left.reversePolish, right.reversePolish] operator.lexeme
  | reference name => name.lexeme

/-- A statement in reverse Polish order. -/
def Stmt.reversePolish : Stmt → Text
  | expression value => postfixed [value.reversePolish] [';']
  | print value => postfixed [value.reversePolish] "print".toList
  | declaration name none => postfixed [] ("nil ".toList ++ name.lexeme ++ " var".toList)
  | declaration name (some initializer) =>
    postfixed [initializer.reversePolish] (name.lexeme ++ " var".toList)

end Lox
