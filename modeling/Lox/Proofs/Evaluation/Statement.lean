import Lox.Evaluation.Execution

/-!
# Executing one statement

What a statement does, as rules with one case for each way it can go, and what it leaves of the
console: the limits of a console never change, and only a console with a limit fails a write or
cancels the program.
-/

namespace Lox

/-- The console stops taking writes and cancels the program after as many writes as the other one. -/
def Console.SameLimits (console other : Console) : Prop :=
  console.failAfter = other.failAfter ∧ console.cancelAfter = other.cancelAfter

namespace Console

/-- Writing keeps the limits. -/
theorem sameLimits_of_write? {console after : Console} {text : Text}
    (h : console.write? text = some after) : after.SameLimits console := by
  unfold write? at h
  split at h
  · cases h
  · cases h
    exact ⟨rfl, rfl⟩

/-- A write fails only on a console that stops taking them. -/
theorem failAfter_of_write? {console : Console} {text : Text} (h : console.write? text = none) :
    console.failAfter.isSome := by
  unfold write? fails at h
  cases hlimit : console.failAfter with
  | some limit => rfl
  | none => simp [hlimit] at h

/-- A program is cancelled only on a console that asks for it. -/
theorem cancelAfter_of_cancelled {console : Console} (h : console.cancelled = true) :
    console.cancelAfter.isSome := by
  unfold cancelled at h
  cases hlimit : console.cancelAfter with
  | some limit => rfl
  | none => simp [hlimit] at h

/-- There is no patience where the program is never cancelled. -/
theorem patience_eq {console : Console} (h : console.cancelAfter = none) :
    console.patience = 0 := by
  have hpatient := console.patient
  cases hpatience : console.patience with
  | zero => rfl
  | succ patience =>
    rw [hpatience, h] at hpatient
    cases hpatient

/-- A check keeps the limits. -/
theorem sameLimits_checked (console : Console) : console.checked.SameLimits console := ⟨rfl, rfl⟩

/-- A check changes nothing once the patience is used up. -/
theorem checked_eq {console : Console} (h : console.patience = 0) : console.checked = console := by
  cases console
  cases h
  rfl

end Console

/-- The expression of a statement, if it has one. -/
def Stmt.expression? : Stmt → Option Expr
  | expression value => some value
  | print value => some value
  | declaration _ initializer => initializer

/-- What a statement does, case by case. -/
inductive Stmt.Executes (environment : Environment) (console : Console) :
    Stmt → Except RunFault Effect × Console → Prop where
  /-- The expression of the statement has a fault. -/
  | failed {statement : Stmt} {tree : Expr} {fault : RuntimeFault}
      (htree : statement.expression? = some tree)
      (heval : tree.eval environment = .error fault) :
      Executes environment console statement (.error (.runtime fault), console)
  /-- An expression leaves its value. -/
  | evaluated {tree : Expr} {value : Option Value} (heval : tree.eval environment = .ok value) :
      Executes environment console (.expression tree) (.ok ⟨value, environment⟩, console)
  /-- A print statement writes one line. -/
  | printed {tree : Expr} {value : Option Value} {after : Console}
      (heval : tree.eval environment = .ok value)
      (hwrite : console.write? (Text.line (Value.textOf value)) = some after) :
      Executes environment console (.print tree) (.ok ⟨some .nil, environment⟩, after)
  /-- A print statement finds that its line is not taken. -/
  | unwritten {tree : Expr} {value : Option Value} (heval : tree.eval environment = .ok value)
      (hwrite : console.write? (Text.line (Value.textOf value)) = none) :
      Executes environment console (.print tree) (.error .writeFailed, console)
  /-- A declaration without an expression makes a variable that holds nil. -/
  | declared (name : Token) :
      Executes environment console (.declaration name none)
        (.ok ⟨some .nil, environment.define name.lexeme (some .nil)⟩, console)
  /-- A declaration makes a variable that holds what its expression evaluates to. -/
  | defined {name : Token} {tree : Expr} {value : Option Value}
      (heval : tree.eval environment = .ok value) :
      Executes environment console (.declaration name (some tree))
        (.ok ⟨some .nil, environment.define name.lexeme value⟩, console)

/-- Executing a statement is one of the cases. -/
theorem Stmt.executes_execute (environment : Environment) (console : Console) (statement : Stmt) :
    Executes environment console statement (statement.execute environment console) := by
  fun_cases Stmt.execute environment console statement with
  | case1 tree fault heval => exact .failed rfl heval
  | case2 tree value heval => exact .evaluated heval
  | case3 tree fault heval => exact .failed rfl heval
  | case4 tree value heval hwrite => exact .unwritten heval hwrite
  | case5 tree value heval after hwrite => exact .printed heval hwrite
  | case6 name => exact .declared name
  | case7 name tree fault heval => exact .failed rfl heval
  | case8 name tree value heval => exact .defined heval

end Lox
