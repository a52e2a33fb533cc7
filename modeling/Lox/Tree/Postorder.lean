import Lox.Tree.Basic

/-!
# Trees in post-order

A tree is listed as its nodes, children first and left before right. A list of nodes is built back
into trees with a stack: every node takes its children off the top and puts its tree there, and a
statement is appended to the statements so far.
-/

namespace Lox

/-- One node of a tree without its children. -/
inductive Node where
  /-- A literal. -/
  | literal (value : Option Value)
  /-- A grouping of the tree on top. -/
  | grouping
  /-- A unary operator on the tree on top. -/
  | unary (operator : Token)
  /-- A binary operator on the two trees on top. -/
  | binary (operator : Token)
  /-- A variable. -/
  | reference (name : Token)
  /-- A statement of the tree on top. -/
  | expression
  /-- A print statement of the tree on top. -/
  | print
  /-- A declaration, with the tree on top if it is initialized. -/
  | declaration (name : Token) (initialized : Bool)
  deriving DecidableEq

/-- The nodes of an expression in post-order. -/
def Expr.nodes : Expr → List Node
  | literal value => [.literal value]
  | grouping inner => inner.nodes ++ [.grouping]
  | unary operator operand => operand.nodes ++ [.unary operator]
  | binary left operator right => left.nodes ++ right.nodes ++ [.binary operator]
  | reference name => [.reference name]

/-- The nodes of a statement in post-order. -/
def Stmt.nodes : Stmt → List Node
  | expression value => value.nodes ++ [.expression]
  | print value => value.nodes ++ [.print]
  | declaration name none => [.declaration name false]
  | declaration name (some initializer) => initializer.nodes ++ [.declaration name true]

/-- The trees built so far. -/
structure Forest where
  /-- The complete statements, in order. -/
  statements : List Stmt := []
  /-- The expressions that no node has taken yet, the last one first. -/
  stack : List Expr := []

namespace Forest

/-- Add one node; a node whose children are missing is refused. -/
def add (forest : Forest) (node : Node) : Option Forest :=
  match node, forest.stack with
  | .literal value, stack => some { forest with stack := .literal value :: stack }
  | .reference name, stack => some { forest with stack := .reference name :: stack }
  | .grouping, inner :: stack => some { forest with stack := .grouping inner :: stack }
  | .unary operator, operand :: stack =>
    some { forest with stack := .unary operator operand :: stack }
  | .binary operator, right :: left :: stack =>
    some { forest with stack := .binary left operator right :: stack }
  | .expression, value :: stack => some ⟨forest.statements ++ [.expression value], stack⟩
  | .print, value :: stack => some ⟨forest.statements ++ [.print value], stack⟩
  | .declaration name true, value :: stack =>
    some ⟨forest.statements ++ [.declaration name (some value)], stack⟩
  | .declaration name false, stack =>
    some ⟨forest.statements ++ [.declaration name none], stack⟩
  | _, _ => none

/-- The trees listed by the nodes. -/
def ofNodes? (nodes : List Node) : Option Forest := nodes.foldlM add {}

end Forest

end Lox
