import Lox.Token.Keyword

/-!
# Kinds of tokens

Kinds are numbered from zero in a fixed order. Every number that belongs to no kind stands for the
one kind `unknown`, which the source never yields.
-/

namespace Lox

/-- What a token is, apart from its text. -/
inductive Kind where
  /-- An opening parenthesis. -/
  | leftParen
  /-- A closing parenthesis. -/
  | rightParen
  /-- An opening brace. -/
  | leftBrace
  /-- A closing brace. -/
  | rightBrace
  /-- A comma. -/
  | comma
  /-- A dot that is no part of a number. -/
  | dot
  /-- A minus sign. -/
  | minus
  /-- A plus sign. -/
  | plus
  /-- A semicolon. -/
  | semicolon
  /-- A slash that opens no comment. -/
  | slash
  /-- A star. -/
  | star
  /-- An exclamation mark. -/
  | bang
  /-- The sign of inequality. -/
  | bangEqual
  /-- A single equals sign. -/
  | equal
  /-- The sign of equality. -/
  | equalEqual
  /-- The sign for greater. -/
  | greater
  /-- The sign for greater or equal. -/
  | greaterEqual
  /-- The sign for less. -/
  | less
  /-- The sign for less or equal. -/
  | lessEqual
  /-- A word that is not reserved. -/
  | identifier
  /-- A quoted string. -/
  | string
  /-- A number. -/
  | number
  /-- A reserved word. -/
  | keyword (word : Keyword)
  /-- The end of the source. -/
  | endOfSource
  /-- No kind of the language. -/
  | unknown
  deriving DecidableEq, Repr

namespace Kind

/-- The kinds of the language in the order of their numbers, from zero. -/
def all : List Kind := [
  leftParen, rightParen, leftBrace, rightBrace, comma, dot, minus, plus, semicolon, slash, star,
  bang, bangEqual, equal, equalEqual, greater, greaterEqual, less, lessEqual,
  identifier, string, number,
  keyword .andWord, keyword .classWord, keyword .elseWord, keyword .falseWord, keyword .funWord,
  keyword .forWord, keyword .ifWord, keyword .nilWord, keyword .orWord, keyword .printWord,
  keyword .returnWord, keyword .superWord, keyword .thisWord, keyword .trueWord, keyword .varWord,
  keyword .whileWord, endOfSource]

/-- The number of a kind. -/
def code (kind : Kind) : Nat := all.idxOf kind

/-- The kind with the given number. -/
def ofCode (n : Int) : Kind := if n < 0 then unknown else all.getD n.toNat unknown

/-- The name of a kind in dumps. -/
def name : Kind → Text
  | leftParen => "LEFT_PAREN".toList
  | rightParen => "RIGHT_PAREN".toList
  | leftBrace => "LEFT_BRACE".toList
  | rightBrace => "RIGHT_BRACE".toList
  | comma => "COMMA".toList
  | dot => "DOT".toList
  | minus => "MINUS".toList
  | plus => "PLUS".toList
  | semicolon => "SEMICOLON".toList
  | slash => "SLASH".toList
  | star => "STAR".toList
  | bang => "BANG".toList
  | bangEqual => "BANG_EQUAL".toList
  | equal => "EQUAL".toList
  | equalEqual => "EQUAL_EQUAL".toList
  | greater => "GREATER".toList
  | greaterEqual => "GREATER_EQUAL".toList
  | less => "LESS".toList
  | lessEqual => "LESS_EQUAL".toList
  | identifier => "IDENTIFIER".toList
  | string => "STRING".toList
  | number => "NUMBER".toList
  | keyword .andWord => "AND".toList
  | keyword .classWord => "CLASS".toList
  | keyword .elseWord => "ELSE".toList
  | keyword .falseWord => "FALSE".toList
  | keyword .funWord => "FUN".toList
  | keyword .forWord => "FOR".toList
  | keyword .ifWord => "IF".toList
  | keyword .nilWord => "NIL".toList
  | keyword .orWord => "OR".toList
  | keyword .printWord => "PRINT".toList
  | keyword .returnWord => "RETURN".toList
  | keyword .superWord => "SUPER".toList
  | keyword .thisWord => "THIS".toList
  | keyword .trueWord => "TRUE".toList
  | keyword .varWord => "VAR".toList
  | keyword .whileWord => "WHILE".toList
  | endOfSource => "EOF".toList
  | unknown => "TokenType(?)".toList

/-- The kind with the given name. -/
def ofName? (name : Text) : Option Kind := all.find? fun kind => kind.name == name

/-- A kind before which reading may resume after a fault. -/
def opensStatement : Kind → Bool
  | keyword word => word.opensStatement
  | _ => false

end Kind

end Lox
