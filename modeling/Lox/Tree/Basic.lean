import Lox.Token.Basic

/-!
# Trees

Expressions and statements. A tree keeps the tokens of its operators and names, so that a fault of
evaluation can point at them. A literal of a tree that was read holds a value; a tree built by other
means may hold none.
-/

namespace Lox

/-- An expression. -/
inductive Expr where
  /-- A value written in the source. -/
  | literal (value : Option Value)
  /-- An expression in parentheses. -/
  | grouping (inner : Expr)
  /-- An operator before its operand. -/
  | unary (operator : Token) (operand : Expr)
  /-- An operator between its operands. -/
  | binary (left : Expr) (operator : Token) (right : Expr)
  /-- The value of a variable. -/
  | reference (name : Token)
  deriving DecidableEq

/-- A statement. -/
inductive Stmt where
  /-- Evaluate an expression. -/
  | expression (value : Expr)
  /-- Evaluate an expression and write its value on a line. -/
  | print (value : Expr)
  /-- Give a variable the value of an expression, or nil. -/
  | declaration (name : Token) (initializer : Option Expr)
  deriving DecidableEq

/-- The most unary operators and groupings on a path from the root of a tree to a leaf. -/
def Expr.nesting : Expr → Nat
  | literal _ => 0
  | grouping inner => inner.nesting + 1
  | unary _ operand => operand.nesting + 1
  | binary left _ right => max left.nesting right.nesting
  | reference _ => 0

end Lox
