import Lox.Evaluation.Execution

/-!
# Interpreters

An interpreter executes programs and evaluates expressions, one after the other. It keeps the
variables of its last run until the next one begins without any. An evaluation that is cancelled
does not begin.
-/

namespace Lox

/-- What an interpreter keeps between its runs. -/
structure Interpreter where
  /-- The variables that the last run left. -/
  environment : Environment := .empty

/-- The variables that an execution leaves if it began with the given ones. -/
def Execution.environmentAfter {α : Type} (environment : Environment) (execution : Execution α) :
    Environment :=
  execution.notices.foldl
    (fun environment notice =>
      match notice with
      | .executed _ after => after
      | .failed _ => environment)
    environment

namespace Interpreter

/-- Forget all variables. -/
def clear (interpreter : Interpreter) : Interpreter := { interpreter with environment := .empty }

/-- Execute a program. -/
def interpret (interpreter : Interpreter) (console : Console) (statements : List Stmt) :
    Execution Text × Interpreter :=
  let interpreter := interpreter.clear
  let execution :=
    Execution.statementsFrom 0 interpreter.environment console [] statements
  (execution,
    { interpreter with environment := execution.environmentAfter interpreter.environment })

/-- Evaluate one expression, unless the program is cancelled. -/
def evaluate (interpreter : Interpreter) (console : Console) (value : Expr) :
    Execution (Option Value) × Interpreter :=
  if console.cancelled then (⟨.error .cancelled, [], console⟩, interpreter)
  else
    let interpreter := interpreter.clear
    match value.eval interpreter.environment with
    | .error fault =>
      (⟨.error (.runtime fault), [.failed (.runtime fault)], console.checked⟩, interpreter)
    | .ok value => (⟨.ok value, [], console.checked⟩, interpreter)

/-- What a program does has nothing to do with the runs before it. -/
theorem interpret_fst (interpreter : Interpreter) (console : Console) (statements : List Stmt) :
    (interpreter.interpret console statements).1 = Execution.program console statements :=
  rfl

/-- What an expression evaluates to has nothing to do with the runs before it. -/
theorem evaluate_fst (interpreter : Interpreter) (console : Console) (value : Expr) :
    (interpreter.evaluate console value).1 = Execution.expression console value := by
  simp only [evaluate, Execution.expression, clear]
  split
  · rfl
  · cases value.eval .empty <;> rfl

end Interpreter

end Lox
