import Lox.Proofs.Reading.Program
import Lox.Tree.Bracketed
import Lox.Tree.ReversePolish

/-!
# Reading without lines

Leaving the lines out of tokens, trees and faults puts them all on the same line. Reading takes
kinds, lexemes and literals into account and nothing else: reading tokens without their lines gives
what reading the tokens gives, without its lines. So two token lists that are the same without
their lines are read in the same way.
-/

namespace Lox

/-- A result with its value and its fault changed. -/
def mapResult {α β ε δ : Type} (value : α → β) (fault : ε → δ) : Except ε α → Except δ β
  | .ok result => .ok (value result)
  | .error found => .error (fault found)

/-- A token without its line. -/
def Token.unlined (token : Token) : Token := { token with line := 0 }

/-- A fault of reading without its line. -/
def SyntaxFault.unlined (fault : SyntaxFault) : SyntaxFault :=
  { fault with token := fault.token.unlined }

namespace Token

@[simp] theorem unlined_kind (token : Token) : token.unlined.kind = token.kind := rfl

@[simp] theorem unlined_lexeme (token : Token) : token.unlined.lexeme = token.lexeme := rfl

@[simp] theorem unlined_isEnd (token : Token) : token.unlined.isEnd = token.isEnd := rfl

@[simp] theorem unlined_value? (token : Token) : token.unlined.value? = token.value? := rfl

end Token

namespace Expr

/-- An expression without the lines of its tokens. -/
def unlined : Expr → Expr
  | literal value => literal value
  | grouping inner => grouping inner.unlined
  | unary operator operand => unary operator.unlined operand.unlined
  | binary left operator right => binary left.unlined operator.unlined right.unlined
  | reference name => reference name.unlined

/-- An S-expression shows no line. -/
@[simp] theorem bracketed_unlined (tree : Expr) : tree.unlined.bracketed = tree.bracketed := by
  induction tree with
  | literal value => rfl
  | grouping inner ih => simp only [unlined, bracketed, ih]
  | unary operator operand ih => simp only [unlined, bracketed, ih, Token.unlined_lexeme]
  | binary left operator right ihl ihr =>
    simp only [unlined, bracketed, ihl, ihr, Token.unlined_lexeme]
  | reference name => rfl

/-- Reverse Polish order shows no line. -/
@[simp] theorem reversePolish_unlined (tree : Expr) :
    tree.unlined.reversePolish = tree.reversePolish := by
  induction tree with
  | literal value => rfl
  | grouping inner ih => simp only [unlined, reversePolish, ih]
  | unary operator operand ih =>
    have hname : unaryName operator.unlined = unaryName operator := rfl
    simp only [unlined, reversePolish, ih, hname]
  | binary left operator right ihl ihr =>
    simp only [unlined, reversePolish, ihl, ihr, Token.unlined_lexeme]
  | reference name => rfl

end Expr

namespace Stmt

/-- A statement without the lines of its tokens. -/
def unlined : Stmt → Stmt
  | expression value => expression value.unlined
  | print value => print value.unlined
  | declaration name none => declaration name.unlined none
  | declaration name (some initializer) => declaration name.unlined (some initializer.unlined)

/-- The S-expression of a statement shows no line. -/
@[simp] theorem bracketed_unlined (statement : Stmt) :
    statement.unlined.bracketed = statement.bracketed := by
  rcases statement with value | value | ⟨name, _ | initializer⟩
  · simp only [unlined, bracketed, Expr.bracketed_unlined]
  · simp only [unlined, bracketed, Expr.bracketed_unlined]
  · rfl
  · simp only [unlined, bracketed, Expr.bracketed_unlined, Token.unlined_lexeme]

/-- A statement in reverse Polish order shows no line. -/
@[simp] theorem reversePolish_unlined (statement : Stmt) :
    statement.unlined.reversePolish = statement.reversePolish := by
  rcases statement with value | value | ⟨name, _ | initializer⟩
  · simp only [unlined, reversePolish, Expr.reversePolish_unlined]
  · simp only [unlined, reversePolish, Expr.reversePolish_unlined]
  · rfl
  · simp only [unlined, reversePolish, Expr.reversePolish_unlined, Token.unlined_lexeme]

end Stmt

/-- A reading without lines, given how to leave them out of what was read. -/
def Reading.unlined {α : Type} (erase : α → α) : Reading α → Reading α
  | accepted value rest => accepted (erase value) (rest.map Token.unlined)
  | refused fault rest => refused fault.unlined (rest.map Token.unlined)

/-- The next token without its line is the next of the tokens without their lines. -/
theorem peek_unlined (stop : Token) (tokens : List Token) :
    peek stop.unlined (tokens.map Token.unlined) = (peek stop tokens).unlined := by
  cases tokens <;> rfl

namespace Reader

/-- One reader makes of tokens without lines what the other makes of the tokens, without lines. -/
def Unlines (plain reader : Reader Expr) : Prop :=
  ∀ tokens, plain.run (tokens.map Token.unlined) = (reader.run tokens).unlined Expr.unlined

section Operators

variable {plain reader : Reader Expr}

theorem chainFrom_unlined (h : Unlines plain reader) (level : Level) (left : Expr)
    (tokens : List Token) :
    chainFrom level plain left.unlined (tokens.map Token.unlined) =
      (chainFrom level reader left tokens).unlined Expr.unlined := by
  -- The next operand is read after an operator of the level only, which its line does not decide.
  fun_induction chainFrom level reader left tokens with
  | case1 left =>
    rw [List.map_nil, chainFrom]
    rfl
  | case2 left token rest hop right after htaken ih =>
    have hplain := h rest
    rw [htaken] at hplain
    have hsame : level.has token.unlined.kind = true := hop
    rw [List.map_cons, chainFrom_step hsame hplain]
    exact ih
  | case3 left token rest hop fault after htaken =>
    have hplain := h rest
    rw [htaken] at hplain
    have hsame : level.has token.unlined.kind = true := hop
    rw [List.map_cons, chainFrom_refused hsame hplain]
    rfl
  | case4 left token rest hop =>
    rw [List.map_cons, chainFrom, Token.unlined_kind, if_neg hop]
    rfl

theorem Unlines.chain (h : Unlines plain reader) (level : Level) :
    Unlines (chain level plain) (chain level reader) := by
  intro tokens
  have hplain := h tokens
  cases hrun : reader.run tokens with
  | accepted left rest =>
    rw [hrun] at hplain
    simp only [Reader.chain, chainRun, hrun, hplain, Reading.unlined]
    exact chainFrom_unlined h level left rest
  | refused fault rest =>
    rw [hrun] at hplain
    simp only [Reader.chain, chainRun, hrun, hplain, Reading.unlined]

theorem Unlines.levels (h : Unlines plain reader) : Unlines plain.levels reader.levels :=
  (((h.chain .factor).chain .term).chain .comparison).chain .equality

end Operators

section Operands

variable {plain reader : Option (Reader Expr)}

/-- What may be nested is missing from both readers or read in the same way by both. -/
def InnerUnlines : Option (Reader Expr) → Option (Reader Expr) → Prop
  | none, none => True
  | some plain, some reader => Unlines plain reader
  | _, _ => False

theorem unaryRun_unlined (h : InnerUnlines plain reader) (stop operator : Token)
    (tokens : List Token) :
    unaryRun stop.unlined operator.unlined plain (tokens.map Token.unlined) =
      (unaryRun stop operator reader tokens).unlined Expr.unlined := by
  match plain, reader, h with
  | none, none, _ =>
    simp only [unaryRun, peek_unlined]
    rfl
  | some plain, some reader, h =>
    have hplain := h tokens
    simp only [unaryRun, hplain]
    cases reader.run tokens <;> rfl

theorem closeRun_unlined (stop : Token) (value : Expr) (tokens : List Token) :
    closeRun stop.unlined value.unlined (tokens.map Token.unlined) =
      (closeRun stop value tokens).unlined Expr.unlined := by
  cases tokens with
  | nil => rfl
  | cons token rest =>
    by_cases hclosing : token.kind = .rightParen
    · simp only [List.map_cons, closeRun, Token.unlined_kind, hclosing, if_true]
      rfl
    · simp only [List.map_cons, closeRun, Token.unlined_kind, hclosing, if_false]
      rfl

theorem groupingRun_unlined (h : InnerUnlines plain reader) (stop : Token)
    (tokens : List Token) :
    groupingRun stop.unlined plain (tokens.map Token.unlined) =
      (groupingRun stop reader tokens).unlined Expr.unlined := by
  match plain, reader, h with
  | none, none, _ =>
    simp only [groupingRun, peek_unlined]
    rfl
  | some plain, some reader, h =>
    have hplain := Unlines.levels h tokens
    simp only [groupingRun, hplain]
    cases reader.levels.run tokens with
    | accepted value rest => exact closeRun_unlined stop value rest
    | refused fault rest => rfl

theorem operandRun_unlined (h : InnerUnlines plain reader) (stop : Token) (tokens : List Token) :
    operandRun stop.unlined plain (tokens.map Token.unlined) =
      (operandRun stop reader tokens).unlined Expr.unlined := by
  cases tokens with
  | nil => rfl
  | cons token rest =>
    rw [List.map_cons, operandRun_cons, operandRun_cons]
    simp only [Token.unlined_kind, Token.unlined_value?]
    by_cases hunary : token.kind.isUnary
    · simp only [hunary, if_true]
      exact unaryRun_unlined h stop token rest
    simp only [hunary]
    cases token.value? with
    | some value => rfl
    | none =>
      by_cases hname : token.kind = .identifier
      · simp only [hname, if_true]
        rfl
      simp only [hname, if_false]
      by_cases hopening : token.kind = .leftParen
      · simp only [hopening, if_true]
        exact groupingRun_unlined h stop rest
      simp only [hopening, if_false]
      by_cases hpassed : token.kind = .number ∨ token.kind = .string
      · simp only [hpassed, if_true]
        rfl
      · simp only [hpassed, if_false]
        rfl

end Operands

/-- Operands are read without regard to lines, whatever the allowance. -/
theorem operand_unlines (stop : Token) (allowance : Nat) :
    Unlines (operand stop.unlined allowance) (operand stop allowance) := by
  induction allowance with
  | zero =>
    have hinner : InnerUnlines none none := trivial
    exact operandRun_unlined hinner stop
  | succ allowance ih =>
    have hinner : InnerUnlines (some (operand stop.unlined allowance))
      (some (operand stop allowance)) := ih
    exact operandRun_unlined hinner stop

/-- Expressions are read without regard to lines. -/
theorem expression_unlines (stop : Token) (allowance : Nat) :
    Unlines (expression stop.unlined allowance) (expression stop allowance) :=
  (operand_unlines stop allowance).levels

section Statements

variable (options : ReadingOptions) (stop : Token)

theorem endRun_unlined (cause : Cause) (statement : Stmt) (tokens : List Token) :
    endRun options stop.unlined cause statement.unlined (tokens.map Token.unlined) =
      (endRun options stop cause statement tokens).unlined Stmt.unlined := by
  cases tokens with
  | nil =>
    simp only [List.map_nil, endRun]
    split <;> rfl
  | cons token rest =>
    by_cases hclosing : token.kind = .semicolon
    · simp only [List.map_cons, endRun, Token.unlined_kind, hclosing, if_true]
      rfl
    · simp only [List.map_cons, endRun, Token.unlined_kind, hclosing, if_false]
      rfl

theorem valueRun_unlined (cause : Cause) {make plain : Expr → Stmt}
    (hmake : ∀ value, plain value.unlined = (make value).unlined) (tokens : List Token) :
    valueRun options stop.unlined cause plain (tokens.map Token.unlined) =
      (valueRun options stop cause make tokens).unlined Stmt.unlined := by
  have hplain := expression_unlines stop options.allowance tokens
  simp only [valueRun, hplain]
  cases (expression stop options.allowance).run tokens with
  | accepted value rest =>
    simp only [Reading.unlined, hmake]
    exact endRun_unlined options stop cause (make value) rest
  | refused fault rest => rfl

theorem initializerRun_unlined (name : Token) (tokens : List Token) :
    initializerRun options stop.unlined name.unlined (tokens.map Token.unlined) =
      (initializerRun options stop name tokens).unlined Stmt.unlined := by
  have hbare := endRun_unlined options stop .expectedSemicolonAfterDeclaration
    (.declaration name none)
  cases tokens with
  | nil => exact hbare []
  | cons token rest =>
    by_cases hequal : token.kind = .equal
    · simp only [List.map_cons, initializerRun, Token.unlined_kind, hequal, if_true]
      exact valueRun_unlined options stop _ (fun _ => rfl) rest
    · simp only [List.map_cons, initializerRun, Token.unlined_kind, hequal, if_false]
      exact hbare (token :: rest)

theorem declarationRun_unlined (tokens : List Token) :
    declarationRun options stop.unlined (tokens.map Token.unlined) =
      (declarationRun options stop tokens).unlined Stmt.unlined := by
  cases tokens with
  | nil => rfl
  | cons token rest =>
    by_cases hname : token.kind = .identifier
    · simp only [List.map_cons, declarationRun, Token.unlined_kind, hname, if_true]
      exact initializerRun_unlined options stop token rest
    · simp only [List.map_cons, declarationRun, Token.unlined_kind, hname, if_false]
      rfl

/-- Statements are read without regard to lines. -/
theorem statementRun_unlined (tokens : List Token) :
    statementRun options stop.unlined (tokens.map Token.unlined) =
      (statementRun options stop tokens).unlined Stmt.unlined := by
  cases tokens with
  | nil => rfl
  | cons token rest =>
    simp only [List.map_cons, statementRun, Token.unlined_kind]
    by_cases hvar : token.kind = .keyword .varWord
    · simp only [hvar, if_true]
      exact declarationRun_unlined options stop rest
    simp only [hvar, if_false]
    by_cases hprint : token.kind = .keyword .printWord
    · simp only [hprint, if_true]
      exact valueRun_unlined options stop _ (fun _ => rfl) rest
    · simp only [hprint, if_false]
      exact valueRun_unlined options stop _ (fun _ => rfl) (token :: rest)

/-- A boundary is where it is, on whatever line. -/
theorem boundaryAfter_unlined (passed : Token) (tokens : List Token) :
    boundaryAfter passed.unlined (tokens.map Token.unlined) =
      (boundaryAfter passed tokens).map Token.unlined := by
  induction tokens generalizing passed with
  | nil => rfl
  | cons token rest ih =>
    simp only [List.map_cons, boundaryAfter, Token.unlined_kind]
    by_cases hboundary : passed.kind = .semicolon ∨ token.kind.opensStatement
    · simp only [hboundary, if_true]
      rfl
    · simp only [hboundary, if_false]
      exact ih token

theorem resume_unlined (tokens : List Token) :
    resume (tokens.map Token.unlined) = (resume tokens).map Token.unlined := by
  cases tokens with
  | nil => rfl
  | cons token rest => exact boundaryAfter_unlined token rest

/-- Programs are read without regard to lines, round by round. -/
theorem program_unlined (tokens : List Token) :
    program options stop.unlined (tokens.map Token.unlined) =
      (program options stop tokens).map (mapResult Stmt.unlined SyntaxFault.unlined) := by
  fun_induction program options stop tokens with
  | case1 =>
    rw [List.map_nil, program]
    rfl
  | case2 token rest statement after htaken ih =>
    have hplain := statementRun_unlined options stop (token :: rest)
    rw [htaken] at hplain
    rw [program_accepted hplain, List.map_cons, ih]
    rfl
  | case3 token rest fault left htaken ih =>
    have hplain := statementRun_unlined options stop (token :: rest)
    rw [htaken] at hplain
    rw [List.map_cons, program_refused hplain, resume_unlined, List.map_cons, ih]
    rfl

end Statements

end Reader

/-- What reading a program yields, without lines. -/
def ProgramReading.unlined (reading : ProgramReading) : ProgramReading :=
  ⟨reading.statements.map Stmt.unlined, reading.faults.map SyntaxFault.unlined⟩

namespace Parser

/-- A parser of the tokens without their lines. -/
def unlined (parser : Parser) : Parser :=
  { parser with
    tokens := parser.tokens.map Token.unlined
    stop := parser.stop.unlined
    rest := parser.rest.map Token.unlined }

/-- A parser of tokens without lines is the parser of the tokens, without lines. -/
theorem ofTokens_unlined (options : ReadingOptions) (tokens : List Token) :
    ofTokens options (tokens.map Token.unlined) =
      mapResult unlined id (ofTokens options tokens) := by
  have hend : Token.isEnd ∘ Token.unlined = Token.isEnd := rfl
  have hopen : (fun token => !Token.isEnd token) ∘ Token.unlined = fun token => !token.isEnd := rfl
  have hbody : body (tokens.map Token.unlined) = (body tokens).map Token.unlined := by
    rw [body, List.takeWhile_map, hopen, body]
  simp only [ofTokens, List.getLast?_map, List.find?_map, hend, hbody]
  cases tokens.getLast? with
  | none => rfl
  | some last =>
    simp only [Option.map_some, Token.unlined_isEnd]
    by_cases hlast : last.isEnd
    · simp only [hlast, if_true]
      cases tokens.find? Token.isEnd <;> rfl
    · simp only [hlast]
      rfl

/-- A program without lines is what its tokens without lines are read as. -/
theorem program_unlined (parser : Parser) :
    parser.unlined.program.1 = parser.program.1.unlined := by
  have hrounds := Reader.program_unlined parser.options parser.stop parser.rest
  have hfault : Reader.fault? ∘ mapResult Stmt.unlined SyntaxFault.unlined =
      fun round => (Reader.fault? round).map SyntaxFault.unlined := by
    funext round
    cases round <;> rfl
  have hvalue : Except.toOption ∘ mapResult Stmt.unlined SyntaxFault.unlined =
      fun round => round.toOption.map Stmt.unlined := by
    funext round
    cases round <;> rfl
  rw [program_fst, program_fst]
  simp only [unlined, ProgramReading.unlined, hrounds, List.filterMap_map, hfault, hvalue,
    ← List.map_filterMap, List.map_eq_nil_iff]
  split <;> rfl

/-- An expression without lines is what its tokens without lines are read as. -/
theorem expression_unlined (parser : Parser) :
    parser.unlined.expression.1 =
      mapResult Expr.unlined SyntaxFault.unlined parser.expression.1 := by
  have hplain := Reader.expression_unlines parser.stop parser.options.allowance parser.rest
  simp only [expression, unlined, hplain]
  cases (Reader.expression parser.stop parser.options.allowance).run parser.rest with
  | refused fault rest => rfl
  | accepted value rest => cases rest <;> rfl

end Parser

end Lox
