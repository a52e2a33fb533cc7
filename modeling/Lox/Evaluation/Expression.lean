import Lox.Evaluation.Environment
import Lox.Evaluation.Operators
import Lox.Tree.Basic

/-!
# Evaluating expressions

Operands are evaluated from left to right, then their operator is applied. The first fault ends the
evaluation.
-/

namespace Lox

/-- The value of a variable. -/
def Environment.read (environment : Environment) (name : Token) :
    Except RuntimeFault (Option Value) :=
  match environment.get? name.lexeme with
  | some value => .ok value
  | none => .error ⟨name, .undefinedVariable (some name.lexeme)⟩

/-- The value of an expression. -/
def Expr.eval (environment : Environment) : Expr → Except RuntimeFault (Option Value)
  | literal value => .ok value
  | grouping inner => inner.eval environment
  | unary operator operand =>
    match operand.eval environment with
    | .error fault => .error fault
    | .ok value => Operator.unary operator value
  | binary left operator right =>
    match left.eval environment with
    | .error fault => .error fault
    | .ok leftValue =>
      match right.eval environment with
      | .error fault => .error fault
      | .ok rightValue => Operator.binary operator leftValue rightValue
  | reference name => environment.read name

end Lox
