import Lox.Evaluation.Interpreter
import Lox.Proofs.Reading.Unlined

/-!
# Running without regard to lines

An operator or a variable that fails names its own token as the place; what it makes of its operands
and why it fails is decided by its kind and lexeme. So a tree without lines evaluates to what the
tree evaluates to, a fault being at the same token without its line, and executions of programs
write the same and end in the same way. Together with reading, which disregards lines as well,
token lists that differ in lines alone behave alike from the tokens to the console.
-/

namespace Lox

/-- A fault of evaluation without its line. -/
def RuntimeFault.unlined (fault : RuntimeFault) : RuntimeFault :=
  { fault with token := fault.token.unlined }

/-- A reason for an early end without its line. -/
def RunFault.unlined : RunFault → RunFault
  | runtime fault => runtime fault.unlined
  | writeFailed => writeFailed
  | cancelled => cancelled

/-- A notice without lines. -/
def Notice.unlined : Notice → Notice
  | executed index environment => executed index environment
  | failed fault => failed fault.unlined

/-- An execution without lines. Its console, its result and the variables it leaves have none. -/
def Execution.unlined {α : Type} (execution : Execution α) : Execution α :=
  { execution with
    outcome := mapResult id RunFault.unlined execution.outcome
    notices := execution.notices.map Notice.unlined }

namespace Operator

/-- Binary operators of the same kind make the same of their operands; each fails at itself. -/
theorem binary_of_kind_eq {operator other : Token} (h : other.kind = operator.kind)
    (left right : Option Value) :
    binary other left right =
      mapResult id (fun fault => ⟨other, fault.cause⟩) (binary operator left right) := by
  unfold binary
  rw [h]
  split
  · rfl
  · rfl
  · cases sum? left right <;> rfl
  · split
    · split <;> rfl
    · rfl

/-- Unary operators of the same kind make the same of their operand; each fails at itself. -/
theorem unary_of_kind_eq {operator other : Token} (h : other.kind = operator.kind)
    (operand : Option Value) :
    unary other operand =
      mapResult id (fun fault => ⟨other, fault.cause⟩) (unary operator operand) := by
  unfold unary
  rw [h]
  split
  · split <;> rfl
  · rfl
  · rfl

end Operator

/-- A variable is looked up by its name, on whatever line. -/
theorem Environment.read_unlined (environment : Environment) (name : Token) :
    environment.read name.unlined = mapResult id RuntimeFault.unlined (environment.read name) := by
  simp only [Environment.read, Token.unlined_lexeme]
  cases environment.get? name.lexeme <;> rfl

/-- A tree without lines evaluates to what the tree evaluates to. -/
theorem Expr.eval_unlined (environment : Environment) (tree : Expr) :
    tree.unlined.eval environment =
      mapResult id RuntimeFault.unlined (tree.eval environment) := by
  induction tree with
  | literal value => rfl
  | grouping inner ih => exact ih
  | unary operator operand ih =>
    simp only [unlined, eval, ih]
    cases operand.eval environment with
    | error fault => rfl
    | ok value =>
      have hself := Operator.unary_of_kind_eq (rfl : operator.kind = operator.kind) value
      have hplain := Operator.unary_of_kind_eq operator.unlined_kind value
      simp only [mapResult, id]
      rw [hplain, hself]
      cases Operator.unary operator value <;> rfl
  | binary left operator right ihleft ihright =>
    simp only [unlined, eval, ihleft, ihright]
    cases left.eval environment with
    | error fault => rfl
    | ok leftValue =>
      cases right.eval environment with
      | error fault => rfl
      | ok rightValue =>
        have hself := Operator.binary_of_kind_eq (rfl : operator.kind = operator.kind)
          leftValue rightValue
        have hplain := Operator.binary_of_kind_eq operator.unlined_kind leftValue rightValue
        simp only [mapResult, id]
        rw [hplain, hself]
        cases Operator.binary operator leftValue rightValue <;> rfl
  | reference name => exact environment.read_unlined name

namespace Stmt

/-- A statement without lines does what the statement does. -/
theorem execute_unlined (environment : Environment) (console : Console) (statement : Stmt) :
    statement.unlined.execute environment console =
      (mapResult id RunFault.unlined (statement.execute environment console).1,
        (statement.execute environment console).2) := by
  rcases statement with value | value | ⟨name, _ | initializer⟩
  · simp only [unlined, execute, Expr.eval_unlined]
    cases value.eval environment <;> rfl
  · simp only [unlined, execute, Expr.eval_unlined]
    cases value.eval environment with
    | error fault => rfl
    | ok result =>
      simp only [mapResult, id]
      cases console.write? (Text.line (Value.textOf result)) <;> rfl
  · rfl
  · simp only [unlined, execute, Expr.eval_unlined, Token.unlined_lexeme]
    cases initializer.eval environment <;> rfl

theorem resultText_unlined (statement : Stmt) (value : Option Value) :
    statement.unlined.resultText value = statement.resultText value := by
  rcases statement with tree | tree | ⟨name, _ | initializer⟩ <;> cases value <;> rfl

end Stmt

namespace Execution

/-- Statements without lines are executed as the statements are. -/
theorem statementsFrom_unlined (index : Nat) (environment : Environment) (console : Console)
    (text : Text) (statements : List Stmt) :
    statementsFrom index environment console text (statements.map Stmt.unlined) =
      (statementsFrom index environment console text statements).unlined := by
  induction statements generalizing index environment console text with
  | nil => rfl
  | cons statement rest ih =>
    simp only [List.map_cons, statementsFrom, Stmt.execute_unlined, Stmt.resultText_unlined]
    by_cases hcancelled : console.cancelled
    · simp only [hcancelled, if_true]
      rfl
    simp only [hcancelled]
    rcases statement.execute environment console.checked with ⟨fault | effect, after⟩
    · rfl
    · simp only [mapResult, id, ih]
      rfl

/-- An expression without lines is evaluated as the expression is. -/
theorem expression_unlined (console : Console) (value : Expr) :
    expression console value.unlined = (expression console value).unlined := by
  simp only [expression, Expr.eval_unlined]
  by_cases hcancelled : console.cancelled
  · simp only [hcancelled, if_true]
    rfl
  simp only [hcancelled]
  cases value.eval .empty <;> rfl

/-- Lines are not kept in variables. -/
theorem environmentAfter_unlined {α : Type} (environment : Environment)
    (execution : Execution α) :
    execution.unlined.environmentAfter environment = execution.environmentAfter environment := by
  simp only [environmentAfter, unlined, List.foldl_map]
  congr 1
  funext before notice
  cases notice <;> rfl

end Execution

/-- All that is made of two expressions is the same, but for lines. -/
structure Expr.Alike (first second : Expr) : Prop where
  /-- The trees are the same. -/
  tree : first.unlined = second.unlined
  /-- The S-expressions are the same. -/
  bracketed : first.bracketed = second.bracketed
  /-- They are the same in reverse Polish order. -/
  reversePolish : first.reversePolish = second.reversePolish
  /-- Evaluation by any interpreter on any console is the same and leaves the same variables. -/
  evaluate : ∀ (interpreter : Interpreter) (console : Console),
    (interpreter.evaluate console first).1.unlined =
        (interpreter.evaluate console second).1.unlined ∧
      (interpreter.evaluate console first).2 = (interpreter.evaluate console second).2

/-- Two readings of an expression succeed alike or fail with the same cause at the same token, but
for lines. -/
def Expr.ReadAlike : Except SyntaxFault Expr → Except SyntaxFault Expr → Prop
  | .ok first, .ok second => first.Alike second
  | .error first, .error second => first.unlined = second.unlined
  | _, _ => False

/-- All that is made of two readings of a program is the same, but for lines. -/
structure ProgramReading.Alike (first second : ProgramReading) : Prop where
  /-- The faults have, one by one, the same cause and token. -/
  faults : first.faults.map SyntaxFault.unlined = second.faults.map SyntaxFault.unlined
  /-- The statements are the same, one by one. -/
  statements : first.statements.map Stmt.unlined = second.statements.map Stmt.unlined
  /-- The S-expressions are the same. -/
  bracketed : first.statements.map Stmt.bracketed = second.statements.map Stmt.bracketed
  /-- They are the same in reverse Polish order. -/
  reversePolish :
    first.statements.map Stmt.reversePolish = second.statements.map Stmt.reversePolish
  /-- Execution by any interpreter on any console is the same and leaves the same variables. -/
  interpret : ∀ (interpreter : Interpreter) (console : Console),
    (interpreter.interpret console first.statements).1.unlined =
        (interpreter.interpret console second.statements).1.unlined ∧
      (interpreter.interpret console first.statements).2 =
        (interpreter.interpret console second.statements).2

/-- The variables that an evaluation leaves are none, unless it does not begin. -/
theorem Interpreter.evaluate_snd (interpreter : Interpreter) (console : Console) (value : Expr) :
    (interpreter.evaluate console value).2 =
      if console.cancelled then interpreter else interpreter.clear := by
  simp only [evaluate]
  split
  · rfl
  · cases value.eval interpreter.clear.environment <;> rfl

/-- Programs whose executions are the same without lines are executed in the same way by all
interpreters and leave the same variables. -/
theorem Interpreter.interpret_of_unlined_eq {console : Console} {statements others : List Stmt}
    (h : (Execution.program console statements).unlined =
      (Execution.program console others).unlined) (first second : Interpreter) :
    (first.interpret console statements).1.unlined = (second.interpret console others).1.unlined ∧
      (first.interpret console statements).2 = (second.interpret console others).2 := by
  have hleft (interpreter : Interpreter) (statements : List Stmt) :
      (interpreter.interpret console statements).2 =
        ⟨(Execution.program console statements).unlined.environmentAfter .empty⟩ := by
    rw [Execution.environmentAfter_unlined]
    rfl
  constructor
  · exact h
  · rw [hleft, hleft, h]

/-- Expressions that are the same without lines are alike. -/
theorem Expr.alike_of_unlined_eq {first second : Expr} (h : first.unlined = second.unlined) :
    first.Alike second where
  tree := h
  bracketed := by rw [← first.bracketed_unlined, h, bracketed_unlined]
  reversePolish := by rw [← first.reversePolish_unlined, h, reversePolish_unlined]
  evaluate interpreter console := by
    simp only [Interpreter.evaluate_fst, Interpreter.evaluate_snd,
      ← Execution.expression_unlined, h, and_self]

/-- Readings of an expression that are the same without lines are alike. -/
theorem Expr.readAlike_of_unlined_eq {first second : Except SyntaxFault Expr}
    (h : mapResult unlined SyntaxFault.unlined first =
      mapResult unlined SyntaxFault.unlined second) : ReadAlike first second := by
  cases first with
  | ok tree =>
    cases second with
    | ok other => exact alike_of_unlined_eq (Except.ok.inj h)
    | error fault => simp only [mapResult, reduceCtorEq] at h
  | error fault =>
    cases second with
    | ok other => simp only [mapResult, reduceCtorEq] at h
    | error other => exact Except.error.inj h

/-- Statements that are the same without lines have the same parts that lines do not show in. -/
theorem Stmt.map_eq_of_unlined_eq {α : Type} {part : Stmt → α}
    (hpart : ∀ statement : Stmt, part statement.unlined = part statement)
    {first second : List Stmt} (h : first.map unlined = second.map unlined) :
    first.map part = second.map part := by
  have hplain (statements : List Stmt) :
      statements.map part = (statements.map unlined).map part := by
    rw [List.map_map]
    exact List.map_congr_left fun statement _ => (hpart statement).symm
  rw [hplain, h, ← hplain]

/-- Readings of a program that are the same without lines are alike. -/
theorem ProgramReading.alike_of_unlined_eq {first second : ProgramReading}
    (h : first.unlined = second.unlined) : first.Alike second where
  faults := congrArg faults h
  statements := congrArg statements h
  bracketed := Stmt.map_eq_of_unlined_eq Stmt.bracketed_unlined (congrArg statements h)
  reversePolish := Stmt.map_eq_of_unlined_eq Stmt.reversePolish_unlined (congrArg statements h)
  interpret interpreter console := by
    have hsame : (Execution.program console first.statements).unlined =
        (Execution.program console second.statements).unlined := by
      have hstatements : first.statements.map Stmt.unlined = second.statements.map Stmt.unlined :=
        congrArg statements h
      simp only [Execution.program, ← Execution.statementsFrom_unlined, hstatements]
    exact Interpreter.interpret_of_unlined_eq hsame interpreter interpreter

namespace Parser

/-- Lines decide nothing. Two token lists that differ in lines alone and are closed by the end of
the source are parsed alike, as a program and as an expression: either both can be read or both
have, one by one, faults of the same cause at the same tokens. What is read has the same texts, and
it runs alike on every console: with the same writes, the same result, and the same fault or none,
but for its line. -/
theorem behaves_independently_of_lines (options : ReadingOptions) {tokens others : List Token}
    (hsame : tokens.map Token.unlined = others.map Token.unlined)
    (hend : ∃ last, tokens.getLast? = some last ∧ last.isEnd = true) :
    ∃ parser other : Parser,
      ofTokens options tokens = .ok parser ∧ ofTokens options others = .ok other ∧
        parser.program.1.Alike other.program.1 ∧
        Expr.ReadAlike parser.expression.1 other.expression.1 := by
  obtain ⟨last, hlast, hstop⟩ := hend
  have hfirst : ∃ parser, ofTokens options tokens = .ok parser := by
    simp only [ofTokens, hlast, hstop, if_true]
    exact ⟨_, rfl⟩
  obtain ⟨parser, hparser⟩ := hfirst
  have hplain : mapResult unlined id (ofTokens options others) = .ok parser.unlined := by
    rw [← ofTokens_unlined, ← hsame, ofTokens_unlined, hparser]
    rfl
  have hsecond : ∃ other, ofTokens options others = .ok other ∧ other.unlined = parser.unlined := by
    cases hothers : ofTokens options others with
    | error fault =>
      rw [hothers] at hplain
      cases hplain
    | ok other =>
      rw [hothers] at hplain
      exact ⟨other, rfl, Except.ok.inj hplain⟩
  obtain ⟨other, hother, hunlined⟩ := hsecond
  have hprogram : parser.program.1.unlined = other.program.1.unlined := by
    rw [← program_unlined, ← program_unlined, hunlined]
  have hexpression : mapResult Expr.unlined SyntaxFault.unlined parser.expression.1 =
      mapResult Expr.unlined SyntaxFault.unlined other.expression.1 := by
    rw [← expression_unlined, ← expression_unlined, hunlined]
  exact ⟨parser, other, hparser, hother, ProgramReading.alike_of_unlined_eq hprogram,
    Expr.readAlike_of_unlined_eq hexpression⟩

/-- A print statement of an undefined variable, with its four tokens on any lines. -/
def printingTokens (first second third fourth : Int) : List Token :=
  [⟨.keyword .printWord, "print".toList, .none, first⟩, ⟨.identifier, ['x'], .none, second⟩,
    ⟨.semicolon, [';'], .none, third⟩, .endOfSource fourth]

/-- A statement on one line and the same statement spread over seven. -/
theorem behaves_independently_of_lines_printing :
    (printingTokens 1 1 1 1).map Token.unlined = (printingTokens 2 5 7 7).map Token.unlined ∧
      (∃ last, (printingTokens 1 1 1 1).getLast? = some last ∧ last.isEnd = true) ∧
      ∃ parser other : Parser,
        ofTokens {} (printingTokens 1 1 1 1) = .ok parser ∧
          ofTokens {} (printingTokens 2 5 7 7) = .ok other ∧
          parser.program.1.Alike other.program.1 ∧
          Expr.ReadAlike parser.expression.1 other.expression.1 :=
  ⟨rfl, ⟨.endOfSource 1, rfl, rfl⟩,
    behaves_independently_of_lines {} rfl ⟨.endOfSource 1, rfl, rfl⟩⟩

end Parser

end Lox
