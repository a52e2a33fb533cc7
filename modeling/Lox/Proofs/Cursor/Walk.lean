import Lox.Session

/-!
# Reading with a cursor

The readers take tokens from the front of a list. Here the same language is read by a cursor that
walks over the places of a token list, as a parser does that keeps all tokens and a number. Nothing
ensures beforehand that there is a token at the place that is asked for, that the cursor stops at the
end of the source, that what is opened is closed again or that a loop comes to an end: a walk may
fail to have a result.

Walks call one another and themselves, so each is given some room. A call and a round of a loop leave
less of it for what comes after, and without any there is no result.
-/

namespace Lox

/-- Where a parser stands in its token list. -/
structure Cursor where
  /-- The place of the next token. -/
  current : Nat
  /-- How many unary operators and parentheses are open. -/
  depth : Int
  /-- All places the cursor has stood at, the latest first. -/
  trail : List Nat

namespace Cursor

/-- The cursor of a new parser. -/
def start : Cursor := ⟨0, 0, [0]⟩

/-- Move on by one place. -/
def step (cursor : Cursor) : Cursor :=
  { cursor with
    current := cursor.current + 1
    trail := (cursor.current + 1) :: cursor.trail }

/-- Count so many more as open. -/
def deepen (cursor : Cursor) (count : Int) : Cursor := { cursor with depth := cursor.depth + count }

end Cursor

/-- Something done with a cursor. There is no result if a token is asked for at a place where there
is none, and none if the room does not suffice. -/
abbrev Walk (α : Type) := StateT Cursor Option α

/-- The operators of a level, in the order they are looked for. -/
def Level.operators : Level → List Kind
  | equality => [.bangEqual, .equalEqual]
  | comparison => [.greater, .greaterEqual, .less, .lessEqual]
  | term => [.minus, .plus]
  | factor => [.slash, .star]

namespace Walk

section Tokens

variable (tokens : List Token)

/-- The token at the cursor. -/
def peek : Walk Token := do
  let cursor ← get
  tokens[cursor.current]?

/-- The token before the cursor. There is none before the first place. -/
def previous : Walk Token := do
  match (← get).current with
  | 0 => failure
  | place + 1 => tokens[place]?

/-- Whether the end of the source is at the cursor. -/
def isAtEnd : Walk Bool := do
  return (← peek tokens).isEnd

/-- Move on, unless the end of the source is at the cursor, and look at the token passed last. -/
def advance : Walk Token := do
  unless ← isAtEnd tokens do
    modify Cursor.step
  previous tokens

/-- Whether a token of the given kind, and not the end of the source, is at the cursor. -/
def check (kind : Kind) : Walk Bool := do
  if ← isAtEnd tokens then
    return false
  return (← peek tokens).kind = kind

/-- Move on if a token of one of the given kinds is at the cursor. -/
def accept : List Kind → Walk Bool
  | [] => return false
  | kind :: kinds => do
    if ← check tokens kind then
      let _ ← advance tokens
      return true
    accept kinds

/-- Take a token of the given kind, or find a fault in its absence. -/
def consume (kind : Kind) (cause : Cause) : Walk (Except SyntaxFault Token) := do
  if ← check tokens kind then
    return .ok (← advance tokens)
  return .error ⟨← peek tokens, cause⟩

/-- Take the parenthesis that closes an expression. -/
def close (value : Expr) : Walk (Except SyntaxFault Expr) := do
  let closing ← consume tokens .rightParen .expectedRightParen
  return closing.map fun _ => .grouping value

/-- Count what was opened, even if the allowance does not suffice for it. -/
def enter (allowance : Nat) : Walk (Except SyntaxFault Unit) := do
  modify fun cursor => cursor.deepen 1
  if (← get).depth > allowance then
    return .error ⟨← peek tokens, .nestingTooDeep⟩
  return .ok ()

/-- Count what was opened as closed. -/
def leave : Walk Unit := modify fun cursor => cursor.deepen (-1)

end Tokens

section Expressions

variable (tokens : List Token) (allowance : Nat)

mutual

/-- Read a chain of operands with operators of one level between them. -/
def chain (level : Level) : Nat → Walk (Except SyntaxFault Expr)
  | 0 => failure
  | room + 1 => do
    match ← operand level room with
    | .error fault => return .error fault
    | .ok left => chainFrom level left room

/-- Read on after a left operand, as long as an operator of the level follows. -/
def chainFrom (level : Level) (left : Expr) : Nat → Walk (Except SyntaxFault Expr)
  | 0 => failure
  | room + 1 => do
    if ← accept tokens level.operators then
      let operator ← previous tokens
      match ← operand level room with
      | .error fault => return .error fault
      | .ok right => chainFrom level (.binary left operator right) room
    else
      return .ok left

/-- Read an operand of a level: a chain of the next one, or what stands between all operators. -/
def operand (level : Level) : Nat → Walk (Except SyntaxFault Expr)
  | 0 => failure
  | room + 1 =>
    match level with
    | .equality => chain .comparison room
    | .comparison => chain .term room
    | .term => chain .factor room
    | .factor => unary room

/-- Read unary operators and what they stand before. The operator is closed however reading what
stands after it went. -/
def unary : Nat → Walk (Except SyntaxFault Expr)
  | 0 => failure
  | room + 1 => do
    if ← accept tokens [.bang, .minus] then
      let operator ← previous tokens
      let right ←
        match ← enter tokens allowance with
        | .error fault => pure (.error fault)
        | .ok () => unary room
      leave
      return right.map (.unary operator)
    else
      primary room

/-- Read a value, a name or an expression in parentheses. -/
def primary : Nat → Walk (Except SyntaxFault Expr)
  | 0 => failure
  | room + 1 => do
    if ← accept tokens [.keyword .falseWord] then
      return .ok (.literal (some (.bool false)))
    if ← accept tokens [.keyword .trueWord] then
      return .ok (.literal (some (.bool true)))
    if ← accept tokens [.keyword .nilWord] then
      return .ok (.literal (some .nil))
    if ← accept tokens [.number, .string] then
      let token ← previous tokens
      match token.literal.value? with
      | some value => return .ok (.literal (some value))
      | none => return .error ⟨token, .expectedExpression⟩
    if ← accept tokens [.identifier] then
      return .ok (.reference (← previous tokens))
    grouping room

/-- Read an expression in parentheses. The parenthesis is closed however reading what stands after
it went. -/
def grouping : Nat → Walk (Except SyntaxFault Expr)
  | 0 => failure
  | room + 1 => do
    if ← accept tokens [.leftParen] then
      let inner ←
        match ← enter tokens allowance with
        | .error fault => pure (.error fault)
        | .ok () =>
          match ← chain .equality room with
          | .error fault => pure (.error fault)
          | .ok value => close tokens value
      leave
      return inner
    else
      return .error ⟨← peek tokens, .expectedExpression⟩

end

/-- Read an expression. -/
def expression (room : Nat) : Walk (Except SyntaxFault Expr) :=
  chain tokens allowance .equality room

end Expressions

section Programs

variable (tokens : List Token) (options : ReadingOptions)

/-- Close a statement. -/
def endStatement (cause : Cause) (statement : Stmt) : Walk (Except SyntaxFault Stmt) := do
  if ← accept tokens [.semicolon] then
    return .ok statement
  if options.implicitSemicolon then
    if ← isAtEnd tokens then
      return .ok statement
  return .error ⟨← peek tokens, cause⟩

/-- Read an expression and close the statement made of it. -/
def valueStatement (cause : Cause) (make : Expr → Stmt) (room : Nat) :
    Walk (Except SyntaxFault Stmt) := do
  match ← expression tokens options.allowance room with
  | .error fault => return .error fault
  | .ok value => endStatement tokens options cause (make value)

/-- Read what stands after the word that opens a declaration. -/
def declaration (room : Nat) : Walk (Except SyntaxFault Stmt) := do
  match ← consume tokens .identifier .expectedVariableName with
  | .error fault => return .error fault
  | .ok name =>
    if ← accept tokens [.equal] then
      valueStatement tokens options .expectedSemicolonAfterDeclaration
        (fun value => .declaration name (some value)) room
    else
      endStatement tokens options .expectedSemicolonAfterDeclaration (.declaration name none)

/-- Read one statement. -/
def statement (room : Nat) : Walk (Except SyntaxFault Stmt) := do
  if ← accept tokens [.keyword .varWord] then
    declaration tokens options room
  else if ← accept tokens [.keyword .printWord] then
    valueStatement tokens options .expectedSemicolonAfterPrint .print room
  else
    valueStatement tokens options .expectedSemicolonAfterExpression .expression room

/-- Pass over tokens up to a boundary. -/
def skip : Nat → Walk Unit
  | 0 => failure
  | room + 1 => do
    if ← isAtEnd tokens then
      return
    if (← previous tokens).kind = .semicolon then
      return
    if (← peek tokens).kind.opensStatement then
      return
    let _ ← advance tokens
    skip room

/-- Pass over the token at the cursor, and over others up to a boundary. -/
def synchronize (room : Nat) : Walk Unit := do
  let _ ← advance tokens
  skip tokens room

/-- One round of reading a program: a statement, or a fault and what is passed over after it. -/
def round (room : Nat) : Walk (Except SyntaxFault Stmt) := do
  match ← statement tokens options room with
  | .error fault =>
    synchronize tokens room
    return .error fault
  | .ok statement => return .ok statement

/-- Rounds up to the end of the source, with what the rounds before them have collected. -/
def rounds (statements : List Stmt) (faults : List SyntaxFault) :
    Nat → Walk (List Stmt × List SyntaxFault)
  | 0 => failure
  | room + 1 => do
    if ← isAtEnd tokens then
      return (statements, faults)
    match ← round tokens options room with
    | .error fault => rounds statements (faults ++ [fault]) room
    | .ok statement => rounds (statements ++ [statement]) faults room

/-- Read statements up to the end of the source. -/
def program (room : Nat) : Walk ProgramReading := do
  let (statements, faults) ← rounds tokens options [] [] room
  return ⟨if faults = [] then statements else [], faults⟩

/-- Read one expression that takes all tokens up to the end of the source. -/
def wholeExpression (room : Nat) : Walk (Except SyntaxFault Expr) := do
  match ← expression tokens options.allowance room with
  | .error fault => return .error fault
  | .ok value =>
    if ← isAtEnd tokens then
      return .ok value
    return .error ⟨← peek tokens, .expectedEnd⟩

end Programs

end Walk

end Lox
