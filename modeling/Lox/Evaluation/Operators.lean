import Lox.Fault.Basic

/-!
# Operators

What an operator makes of its operands. Equality takes anything; a sum takes two strings or two
numbers; all other binary operators take two numbers, which is checked before the operator itself.
-/

namespace Lox.Operator

/-- What a binary operator makes of two numbers, for the operators that take numbers alone. -/
def onNumbers? (kind : Kind) (x y : Float) : Option Value :=
  match kind with
  | .greater => some (.bool (decide (y < x)))
  | .greaterEqual => some (.bool (decide (y ≤ x)))
  | .less => some (.bool (decide (x < y)))
  | .lessEqual => some (.bool (decide (x ≤ y)))
  | .minus => some (.number (x - y))
  | .slash => some (.number (x / y))
  | .star => some (.number (x * y))
  | _ => none

/-- The sum of two numbers or two strings. -/
def sum? : Option Value → Option Value → Option Value
  | some (.string s), some (.string t) => some (.string (s ++ t))
  | some (.number x), some (.number y) => some (.number (x + y))
  | _, _ => none

/-- A binary operator applied to the values of its operands. -/
def binary (operator : Token) (left right : Option Value) :
    Except RuntimeFault (Option Value) :=
  match operator.kind with
  | .bangEqual => .ok (some (.bool (!Value.same left right)))
  | .equalEqual => .ok (some (.bool (Value.same left right)))
  | .plus =>
    match sum? left right with
    | some value => .ok (some value)
    | none => .error ⟨operator, .operandsNotAlike⟩
  | kind =>
    match left, right with
    | some (.number x), some (.number y) =>
      match onNumbers? kind x y with
      | some value => .ok (some value)
      | none => .error ⟨operator, .unknownOperator⟩
    | _, _ => .error ⟨operator, .operandsNotNumbers⟩

/-- A unary operator applied to the value of its operand. -/
def unary (operator : Token) (operand : Option Value) : Except RuntimeFault (Option Value) :=
  match operator.kind with
  | .minus =>
    match operand with
    | some (.number x) => .ok (some (.number (-x)))
    | _ => .error ⟨operator, .operandNotNumber⟩
  | .bang => .ok (some (.bool (!Value.isTruthy operand)))
  | _ => .error ⟨operator, .unknownOperator⟩

end Lox.Operator
