import Lox.Evaluation.Execution
import Lox.Tree.Postorder

/-!
# Evaluation on a stack

The nodes of a tree in post-order are a program for a machine that has only a stack of values.
Running it is evaluating the tree: a run that ends leaves exactly the value of the tree, and a run
that fails does so at the node whose fault the evaluation has. The machine goes through the nodes
once, from left to right, so of several nodes that could fail it is the first one that counts.
-/

namespace Lox

/-- The values that nodes have left and no node has taken yet, the last one first. -/
abbrev ValueStack := List (Option Value)

/-- Why a node cannot be carried out. -/
inductive StackFault where
  /-- The node itself has a fault. -/
  | failed (fault : RuntimeFault)
  /-- The stack does not hold the operands of the node, or the node is not one of an expression. -/
  | stuck

/-- Put what an operation yields on a stack. -/
def ValueStack.push (stack : ValueStack) :
    Except RuntimeFault (Option Value) → Except StackFault ValueStack
  | .ok value => .ok (value :: stack)
  | .error fault => .error (.failed fault)

/-- Carry out one node. -/
def Node.step (environment : Environment) (stack : ValueStack) (node : Node) :
    Except StackFault ValueStack :=
  match node, stack with
  | .literal value, stack => .ok (value :: stack)
  | .reference name, stack => ValueStack.push stack (environment.read name)
  | .grouping, stack => .ok stack
  | .unary operator, operand :: stack =>
    ValueStack.push stack (Operator.unary operator operand)
  | .binary operator, right :: left :: stack =>
    ValueStack.push stack (Operator.binary operator left right)
  | _, _ => .error .stuck

/-- Carry out nodes in order, as long as none of them fails. -/
def Node.run (environment : Environment) :
    List Node → ValueStack → Except StackFault ValueStack
  | [], stack => .ok stack
  | node :: nodes, stack =>
    match node.step environment stack with
    | .ok stack => run environment nodes stack
    | .error fault => .error fault

namespace Node

/-- A run goes on where the run of the nodes before ended. -/
theorem run_append {environment : Environment} {before : List Node} {stack middle : ValueStack}
    (h : run environment before stack = .ok middle) (after : List Node) :
    run environment (before ++ after) stack = run environment after middle := by
  induction before generalizing stack with
  | nil =>
    cases h
    rfl
  | cons node nodes ih =>
    simp only [List.cons_append, run] at h ⊢
    cases hstep : node.step environment stack with
    | ok next =>
      rw [hstep] at h
      exact ih h
    | error fault =>
      rw [hstep] at h
      cases h

/-- The nodes of a tree leave its value on the stack they were given, and what comes after them runs
on that; a fault of the tree ends the run. -/
theorem run_nodes (environment : Environment) (tree : Expr) (after : List Node)
    (stack : ValueStack) :
    run environment (tree.nodes ++ after) stack =
      match tree.eval environment with
      | .ok value => run environment after (value :: stack)
      | .error fault => .error (.failed fault) := by
  induction tree generalizing after stack with
  | literal value => rfl
  | reference name =>
    simp only [Expr.nodes, Expr.eval, List.cons_append, List.nil_append, run, step]
    cases environment.read name <;> rfl
  | grouping inner ih =>
    simp only [Expr.nodes, Expr.eval, List.append_assoc, ih]
    cases inner.eval environment <;> rfl
  | unary operator operand ih =>
    simp only [Expr.nodes, Expr.eval, List.append_assoc, ih]
    cases operand.eval environment with
    | error fault => rfl
    | ok value =>
      simp only [List.cons_append, List.nil_append, run, step]
      cases Operator.unary operator value <;> rfl
  | binary left operator right ihleft ihright =>
    simp only [Expr.nodes, Expr.eval, List.append_assoc, ihleft]
    cases left.eval environment with
    | error fault => rfl
    | ok leftValue =>
      simp only [ihright]
      cases right.eval environment with
      | error fault => rfl
      | ok rightValue =>
        simp only [List.cons_append, List.nil_append, run, step]
        cases Operator.binary operator leftValue rightValue <;> rfl

/-- One of the nodes fails with the fault, and all nodes before it were carried out. -/
def FailsFirst (environment : Environment) (nodes : List Node) (stack : ValueStack)
    (fault : StackFault) : Prop :=
  ∃ before node after middle, nodes = before ++ node :: after ∧
    run environment before stack = .ok middle ∧ node.step environment middle = .error fault

/-- A run fails exactly as its first node that fails does. -/
theorem run_eq_error_iff (environment : Environment) (nodes : List Node) (stack : ValueStack)
    (fault : StackFault) :
    run environment nodes stack = .error fault ↔ FailsFirst environment nodes stack fault := by
  constructor
  · intro h
    induction nodes generalizing stack with
    | nil => cases h
    | cons node nodes ih =>
      simp only [run] at h
      cases hstep : node.step environment stack with
      | error other =>
        rw [hstep] at h
        cases h
        exact ⟨[], node, nodes, stack, rfl, rfl, hstep⟩
      | ok next =>
        rw [hstep] at h
        obtain ⟨before, failing, after, middle, rfl, hbefore, hfailing⟩ := ih next h
        refine ⟨node :: before, failing, after, middle, rfl, ?_, hfailing⟩
        simp only [run, hstep, hbefore]
  · rintro ⟨before, node, after, middle, rfl, hbefore, hnode⟩
    rw [run_append hbefore, run, hnode]

/-- On an empty stack the nodes of a tree end with its value alone or fail with its fault. -/
theorem run_nodes_nil (environment : Environment) (tree : Expr) :
    run environment tree.nodes [] =
      match tree.eval environment with
      | .ok value => .ok [value]
      | .error fault => .error (.failed fault) := by
  have hrun := run_nodes environment tree [] []
  rw [List.append_nil] at hrun
  exact hrun

/-- The nodes of a tree end with one value exactly if that is the value of the tree. -/
theorem run_nodes_eq_ok_iff (environment : Environment) (tree : Expr) (value : Option Value) :
    run environment tree.nodes [] = .ok [value] ↔ tree.eval environment = .ok value := by
  rw [run_nodes_nil]
  cases tree.eval environment <;> simp

/-- A node of a tree is the first one to fail exactly if the tree has its fault. -/
theorem failsFirst_nodes_iff (environment : Environment) (tree : Expr) (fault : RuntimeFault) :
    FailsFirst environment tree.nodes [] (.failed fault) ↔
      tree.eval environment = .error fault := by
  rw [← run_eq_error_iff, run_nodes_nil]
  cases tree.eval environment <;> simp

end Node

/-- Evaluating an expression that is not cancelled is evaluating its tree without any variable. -/
theorem Execution.expression_outcome (console : Console) (tree : Expr) :
    (Execution.expression console tree).outcome =
      if console.cancelled then .error .cancelled
      else
        match tree.eval .empty with
        | .ok value => .ok value
        | .error fault => .error (.runtime fault) := by
  unfold Execution.expression
  split
  · rfl
  · cases tree.eval .empty <;> rfl

/-- Evaluating a tree is carrying out its nodes in post-order on a stack: it yields a value exactly
if the run ends with that value and nothing else, and it has a fault exactly if that is the fault of
the first node that fails. So it is for the tree alone in every environment, and for the evaluation
of an expression that is not cancelled. -/
theorem Expr.eval_iff_run_nodes (tree : Expr) :
    (∀ environment : Environment,
      (∀ value, tree.eval environment = .ok value ↔
        Node.run environment tree.nodes [] = .ok [value]) ∧
      ∀ fault, tree.eval environment = .error fault ↔
        Node.FailsFirst environment tree.nodes [] (.failed fault)) ∧
    ∀ console : Console,
      (∀ value, (Execution.expression console tree).outcome = .ok value ↔
        console.cancelled = false ∧ Node.run .empty tree.nodes [] = .ok [value]) ∧
      ∀ fault, (Execution.expression console tree).outcome = .error (.runtime fault) ↔
        console.cancelled = false ∧ Node.FailsFirst .empty tree.nodes [] (.failed fault) := by
  refine ⟨fun environment => ⟨fun value => ?_, fun fault => ?_⟩,
    fun console => ⟨fun value => ?_, fun fault => ?_⟩⟩
  · exact (Node.run_nodes_eq_ok_iff environment tree value).symm
  · exact (Node.failsFirst_nodes_iff environment tree fault).symm
  · rw [Node.run_nodes_eq_ok_iff, Execution.expression_outcome]
    cases console.cancelled <;> cases tree.eval .empty <;> simp
  · rw [Node.failsFirst_nodes_iff, Execution.expression_outcome]
    cases console.cancelled <;> cases tree.eval .empty <;> simp

/-- Where both operands fail, the fault is that of the left one. -/
example :
    (Expr.binary (.unary ⟨.minus, ['-'], .none, 1⟩ (.literal (some .nil)))
        ⟨.plus, ['+'], .none, 2⟩ (.reference ⟨.identifier, ['x'], .none, 3⟩)).eval .empty =
      .error ⟨⟨.minus, ['-'], .none, 1⟩, .operandNotNumber⟩ := by
  rfl

end Lox
