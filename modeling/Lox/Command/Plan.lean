import Lox.Command.Flags
import Lox.Log.Record
import Lox.Tree.Bracketed
import Lox.Tree.ReversePolish

/-!
# Plans

What a command line asks for, once its flags are understood: a description of the command, or a task
with settings. Faults are looked for in a fixed order: the flags, the number of arguments, a script
beside an expression, the style of trees, the level of records. A description is given as soon as
the flags are understood.
-/

namespace Lox

/-- How trees are written. -/
inductive TreeStyle where
  /-- As S-expressions. -/
  | bracketed
  /-- In reverse Polish order. -/
  | reversePolish
  deriving DecidableEq, Repr

namespace TreeStyle

/-- The style with a name. -/
def ofName? (name : Text) : Option TreeStyle :=
  if name = "sexpr".toList then some bracketed
  else if name = "rpn".toList then some reversePolish
  else none

/-- The text of an expression. -/
def expression : TreeStyle → Expr → Text
  | bracketed => Expr.bracketed
  | reversePolish => Expr.reversePolish

/-- The text of a statement. -/
def statement : TreeStyle → Stmt → Text
  | bracketed => Stmt.bracketed
  | reversePolish => Stmt.reversePolish

end TreeStyle

/-- What is run. -/
inductive Task where
  /-- One expression. -/
  | expression (source : Text)
  /-- The statements in a file. -/
  | script (path : Text)
  /-- The lines of standard input, one by one. -/
  | prompt
  deriving DecidableEq

/-- What is written beside the output of programs. -/
structure Settings where
  /-- The style in which trees are written, if they are. -/
  style : Option TreeStyle := none
  /-- Whether tokens are written. -/
  printTokens : Bool := false

/-- A task with all that matters for it. -/
structure Plan where
  /-- What is run. -/
  task : Task
  /-- What is written. -/
  settings : Settings := {}
  /-- The least level of records that are written. -/
  level : LogLevel := .warn

/-- What a command line asks for. -/
inductive Request where
  /-- A description of the command. -/
  | help
  /-- To carry out a plan. -/
  | run (plan : Plan)

namespace Plan

/-- The task that flags and arguments ask for. -/
def task? (flags : Flags) : Except UsageFault Task :=
  match flags.eval, flags.arguments with
  | none, [] => .ok .prompt
  | none, [path] => .ok (.script path)
  | _, _ :: other :: others => .error (.tooManyArguments (other :: others).length.succ)
  | some source, [] => .ok (.expression source)
  | some _, [_] => .error .scriptWithEval

/-- The style of trees that flags ask for. -/
def style? (flags : Flags) : Except UsageFault (Option TreeStyle) :=
  if flags.printAst = [] then .ok none
  else
    match TreeStyle.ofName? flags.printAst with
    | some style => .ok (some style)
    | none => .error (.unknownStyle flags.printAst)

/-- The level of records that flags ask for. -/
def level? (flags : Flags) : Except UsageFault LogLevel :=
  match LogLevel.ofText? flags.logLevel with
  | some level => .ok level
  | none => .error (.unknownLevel flags.logLevel)

/-- The plan that flags ask for. -/
def ofFlags (flags : Flags) : Except UsageFault Plan := do
  let task ← task? flags
  let style ← style? flags
  let level ← level? flags
  return ⟨task, ⟨style, flags.printTokens⟩, level⟩

end Plan

/-- What arguments ask for. -/
def Request.ofArguments (arguments : List Text) : Except UsageFault Request := do
  let flags ← Flags.parse {} arguments
  if flags.help then return .help
  return .run (← Plan.ofFlags flags)

end Lox
