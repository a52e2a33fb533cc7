import Lox.Reading.Program

/-!
# Parsers

A parser holds a token list that is closed by the end of the source and a place in it. Reading a
program or an expression starts at that place and moves it forward, never past the first end of the
source; tokens after that are never looked at.
-/

namespace Lox

/-- Why a token list cannot be parsed. -/
inductive TokensFault where
  /-- There are no tokens. -/
  | empty
  /-- The last token is not the end of the source. -/
  | unclosed
  deriving DecidableEq, Repr

/-- The wording of a fault of a token list. -/
def TokensFault.message : TokensFault → Text
  | empty => "tokens cannot be empty".toList
  | unclosed => "tokens must end with EOF".toList

/-- A token list and a place in it. -/
structure Parser where
  /-- All tokens as they were given. -/
  tokens : List Token
  /-- The first end of the source. -/
  stop : Token
  /-- The tokens from the place in the list up to the first end of the source. -/
  rest : List Token
  /-- How to read. -/
  options : ReadingOptions

/-- What reading a program yields: statements, unless there are faults. -/
structure ProgramReading where
  /-- The statements, if all of them could be read. -/
  statements : List Stmt
  /-- What is wrong, in order. -/
  faults : List SyntaxFault

namespace Parser

/-- The tokens before the first end of the source. -/
def body (tokens : List Token) : List Token := tokens.takeWhile fun token => !token.isEnd

/-- A parser at the start of a token list. -/
def ofTokens (options : ReadingOptions) (tokens : List Token) : Except TokensFault Parser :=
  match tokens.getLast? with
  | none => .error .empty
  | some last =>
    if last.isEnd then
      .ok ⟨tokens, (tokens.find? Token.isEnd).getD last, body tokens, options⟩
    else .error .unclosed

/-- How many tokens stand before the place in the list. -/
def current (parser : Parser) : Nat := (body parser.tokens).length - parser.rest.length

/-- Read statements up to the first end of the source. -/
def program (parser : Parser) : ProgramReading × Parser :=
  let rounds := Reader.program parser.options parser.stop parser.rest
  let faults := rounds.filterMap fun round =>
    match round with
    | .error fault => some fault
    | .ok _ => none
  let statements := rounds.filterMap Except.toOption
  (⟨if faults = [] then statements else [], faults⟩, { parser with rest := [] })

/-- Read one expression that takes all tokens up to the first end of the source. -/
def expression (parser : Parser) : Except SyntaxFault Expr × Parser :=
  match (Reader.expression parser.stop parser.options.allowance).run parser.rest with
  | .refused fault rest => (.error fault, { parser with rest := rest })
  | .accepted value [] => (.ok value, { parser with rest := [] })
  | .accepted _ (token :: rest) =>
    (.error ⟨token, .expectedEnd⟩, { parser with rest := token :: rest })

/-- The size of a parser and its place. -/
def text (parser : Parser) : Text :=
  "parser\x7btokens: ".toList ++ Text.ofNat parser.tokens.length ++ ", current: ".toList ++
    Text.ofNat parser.current ++ ['\x7d']

/-- All tokens of a parser and its place; between two readings nothing is nested. -/
def dump (parser : Parser) : Text :=
  "parser\x7btokens: []token.Token\x7b".toList ++
    Text.join ", ".toList (parser.tokens.map Token.dump) ++ "\x7d, current: ".toList ++
    Text.ofNat parser.current ++ ", depth: 0\x7d".toList

end Parser

namespace ProgramReading

/-- The faults as they are reported. -/
def reports (reading : ProgramReading) : List Fault := reading.faults.map .parse

/-- All faults as one. -/
def fault? (reading : ProgramReading) : Option Fault := Fault.join (reading.reports.map some)

end ProgramReading

end Lox
