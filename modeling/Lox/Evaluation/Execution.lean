import Lox.Evaluation.Console
import Lox.Evaluation.Expression

/-!
# Executing statements

Statements are executed in order, starting without any variable. Before each statement the program
may be found cancelled, which ends it quietly; a fault of a statement ends it too and is given
notice of. The text of a complete execution is that of its last statement's value, if that statement
is an expression.
-/

namespace Lox

/-- Why an execution ended early. -/
inductive RunFault where
  /-- An operation could not be carried out. -/
  | runtime (fault : RuntimeFault)
  /-- The console did not take a write. -/
  | writeFailed
  /-- The program was cancelled. -/
  | cancelled
  deriving DecidableEq

/-- The fault as it is reported. -/
def RunFault.toFault : RunFault → Fault
  | runtime fault => .runtime fault
  | writeFailed => .plain "write failed".toList
  | cancelled => .plain "context canceled".toList

/-- What an execution makes known beside its output. -/
inductive Notice where
  /-- The statement at an index was executed and left this environment. -/
  | executed (index : Nat) (environment : Environment)
  /-- The execution ended with a fault, which is to be reported. -/
  | failed (fault : RunFault)

/-- How an execution went. -/
structure Execution (α : Type) where
  /-- The result, or why there is none. -/
  outcome : Except RunFault α
  /-- What was made known, in order. -/
  notices : List Notice
  /-- The console afterwards. -/
  console : Console

/-- What one statement leaves behind. -/
structure Effect where
  /-- The value of an expression, nil for other statements. -/
  value : Option Value
  /-- The variables afterwards. -/
  environment : Environment

namespace Stmt

/-- Execute one statement; the console comes back whether it fails or not. -/
def execute (environment : Environment) (console : Console) :
    Stmt → Except RunFault Effect × Console
  | expression value =>
    match value.eval environment with
    | .error fault => (.error (.runtime fault), console)
    | .ok value => (.ok ⟨value, environment⟩, console)
  | print value =>
    match value.eval environment with
    | .error fault => (.error (.runtime fault), console)
    | .ok value =>
      match console.write? (Text.line (Value.textOf value)) with
      | none => (.error .writeFailed, console)
      | some console => (.ok ⟨some .nil, environment⟩, console)
  | declaration name none => (.ok ⟨some .nil, environment.define name.lexeme (some .nil)⟩, console)
  | declaration name (some initializer) =>
    match initializer.eval environment with
    | .error fault => (.error (.runtime fault), console)
    | .ok value => (.ok ⟨some .nil, environment.define name.lexeme value⟩, console)

/-- The text that an execution ends with after this statement. -/
def resultText : Stmt → Option Value → Text
  | expression _, some value => value.text
  | _, _ => []

end Stmt

namespace Execution

/-- Execute statements from an index on, where the statements before left a text. -/
def statementsFrom (index : Nat) (environment : Environment) (console : Console) (text : Text) :
    List Stmt → Execution Text
  | [] => ⟨.ok text, [], console⟩
  | statement :: rest =>
    if console.cancelled then ⟨.error .cancelled, [], console⟩
    else
      match statement.execute environment console.checked with
      | (.error fault, console) => ⟨.error fault, [.failed fault], console⟩
      | (.ok effect, console) =>
        let later := statementsFrom (index + 1) effect.environment console
          (statement.resultText effect.value) rest
        { later with notices := .executed index effect.environment :: later.notices }

/-- Execute a program. -/
def program (console : Console) (statements : List Stmt) : Execution Text :=
  statementsFrom 0 .empty console [] statements

/-- Evaluate one expression, unless the program is cancelled. -/
def expression (console : Console) (value : Expr) : Execution (Option Value) :=
  if console.cancelled then ⟨.error .cancelled, [], console⟩
  else
    match value.eval .empty with
    | .error fault => ⟨.error (.runtime fault), [.failed (.runtime fault)], console.checked⟩
    | .ok value => ⟨.ok value, [], console.checked⟩

/-- Why the execution ended early, if it did. -/
def fault? {α : Type} (execution : Execution α) : Option Fault :=
  match execution.outcome with
  | .error fault => some fault.toFault
  | .ok _ => none

/-- The faults that are to be reported, in order. -/
def reports {α : Type} (execution : Execution α) : List Fault :=
  execution.notices.filterMap fun notice =>
    match notice with
    | .failed fault => some fault.toFault
    | .executed _ _ => none

end Execution

end Lox
