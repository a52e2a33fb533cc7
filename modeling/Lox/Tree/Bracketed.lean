import Lox.Tree.Basic

/-!
# Trees as S-expressions

Every node with children is written in parentheses, its head first: `1 + 2 * 3` becomes
`(+ 1 (* 2 3))`.
-/

namespace Lox

/-- A head and its parts in parentheses, separated by spaces. -/
def parenthesized (head : Text) (parts : List Text) : Text :=
  '(' :: head ++ parts.flatMap (fun part => ' ' :: part) ++ [')']

/-- An expression as an S-expression. -/
def Expr.bracketed : Expr → Text
  | literal value => Value.dumpOf value
  | grouping inner => parenthesized "group".toList [inner.bracketed]
  | unary operator operand => parenthesized operator.lexeme [operand.bracketed]
  | binary left operator right =>
    parenthesized operator.lexeme [left.bracketed, right.bracketed]
  | reference name => name.lexeme

/-- A statement as an S-expression. -/
def Stmt.bracketed : Stmt → Text
  | expression value => parenthesized [';'] [value.bracketed]
  | print value => parenthesized "print".toList [value.bracketed]
  | declaration name none => parenthesized ("var ".toList ++ name.lexeme) []
  | declaration name (some initializer) =>
    parenthesized ("var ".toList ++ name.lexeme) [initializer.bracketed]

end Lox
