import Lox.Token.Kind
import Lox.Token.Literal

/-!
# Tokens

A token is one piece of the source with its kind, its text, its literal and the line it ends on. It
is shown in three ways: plainly, as a dump on one line, and as a place in a message.
-/

namespace Lox

/-- One piece of the source. -/
structure Token where
  /-- What the token is. -/
  kind : Kind
  /-- The text of the token in the source. -/
  lexeme : Text
  /-- The datum the text stands for. -/
  literal : Literal
  /-- The line of the last character. -/
  line : Int
  deriving DecidableEq

namespace Token

/-- The token that closes every token list. -/
def endOfSource (line : Int) : Token := ⟨.endOfSource, [], .none, line⟩

/-- Whether a token closes the list. -/
def isEnd (token : Token) : Bool := token.kind == .endOfSource

/-- The place of a token in a message. -/
def location (token : Token) : Text :=
  if token.isEnd then "at end".toList else "at \x27".toList ++ token.lexeme ++ ['\x27']

/-- Kind, lexeme and literal, separated by spaces. -/
def text (token : Token) : Text :=
  token.kind.name ++ ' ' :: token.lexeme ++ ' ' :: token.literal.text

/-- All parts of a token by name, texts quoted. -/
def dump (token : Token) : Text :=
  "\x7bType: ".toList ++ token.kind.name ++ ", Lexeme: ".toList ++ Quoted.text token.lexeme ++
    ", Literal: ".toList ++ token.literal.dump ++ ", Line: ".toList ++ Text.ofInt token.line ++
    ['\x7d']

end Token

end Lox
