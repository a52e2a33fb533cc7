import Lox.Number.Decimal
import Lox.Token.Basic

/-!
# Segments of the source

The source is cut into consecutive segments from the front, each as long as its kind allows: a
blank, a comment, a lexeme, a character that starts nothing, a number too large for a double, or a
string that is never closed. No character is left out, so the segments joined are the source.
-/

namespace Lox

/-- A piece of the source and what it is. -/
inductive Segment where
  /-- A character between lexemes. -/
  | blank (c : Char)
  /-- Two slashes and the rest of their line, without its line feed. -/
  | comment (text : Text)
  /-- The text of a token. -/
  | lexeme (kind : Kind) (literal : Literal) (text : Text)
  /-- A character that starts no lexeme. -/
  | stray (c : Char)
  /-- A number whose nearest double is infinity. -/
  | overflow (text : Text)
  /-- A string that runs to the end of the source. -/
  | unterminated (text : Text)
  deriving DecidableEq

namespace Segment

/-- The characters of a segment. -/
def text : Segment → Text
  | blank c => [c]
  | comment text => text
  | lexeme _ _ text => text
  | stray c => [c]
  | overflow text => text
  | unterminated text => text

/-- The characters that only separate lexemes. -/
def isBlank (c : Char) : Bool := c = ' ' || c = '\r' || c = '\t' || c = '\n'

/-- The characters a word starts with: ASCII letters and the underscore. -/
def startsWord (c : Char) : Bool := c.isAlpha || c = '_'

/-- The characters a word goes on with. -/
def continuesWord (c : Char) : Bool := startsWord c || c.isDigit

/-- The kind of a lexeme that is always one character long. -/
def single? (c : Char) : Option Kind :=
  if c = '(' then some .leftParen
  else if c = ')' then some .rightParen
  else if c = '\x7b' then some .leftBrace
  else if c = '\x7d' then some .rightBrace
  else if c = ',' then some .comma
  else if c = '.' then some .dot
  else if c = '-' then some .minus
  else if c = '+' then some .plus
  else if c = ';' then some .semicolon
  else if c = '*' then some .star
  else none

/-- The kinds of a lexeme that may take an equals sign: without and with it. -/
def paired? (c : Char) : Option (Kind × Kind) :=
  if c = '!' then some (.bang, .bangEqual)
  else if c = '=' then some (.equal, .equalEqual)
  else if c = '<' then some (.less, .lessEqual)
  else if c = '>' then some (.greater, .greaterEqual)
  else none

/-- The segment of a character that may take an equals sign. -/
def paired (c : Char) (kinds : Kind × Kind) : Text → Segment
  | '=' :: _ => lexeme kinds.2 .none [c, '=']
  | _ => lexeme kinds.1 .none [c]

/-- The segment of a slash. -/
def slash : Text → Segment
  | '/' :: rest => comment ('/' :: '/' :: rest.takeWhile (· != '\n'))
  | _ => lexeme .slash .none ['/']

/-- The segment of a double quote: everything up to the next one. -/
def string (rest : Text) : Segment :=
  let body := rest.takeWhile (· != '"')
  if body.length < rest.length then lexeme .string (.string body) ('"' :: (body ++ ['"']))
  else unterminated ('"' :: rest)

/-- The digits after a point that belong to a number: none, unless the point is followed by one. -/
def fraction : Text → Text
  | '.' :: rest => rest.takeWhile Char.isDigit
  | _ => []

/-- The segment of a number, given its double if that is finite. -/
def numeral (text : Text) : Option Float → Segment
  | some x => lexeme .number (.number x) text
  | none => overflow text

/-- The segment of a digit: digits, and a point with digits after it. -/
def number (c : Char) (rest : Text) : Segment :=
  let whole := c :: rest.takeWhile Char.isDigit
  let fraction := fraction (rest.dropWhile Char.isDigit)
  numeral (if fraction = [] then whole else whole ++ '.' :: fraction)
    (Decimal.ofDigits whole fraction).toFloat?

/-- The kind of a word. -/
def wordKind (word : Text) : Kind :=
  match Keyword.ofText? word with
  | some keyword => .keyword keyword
  | none => .identifier

/-- The segment of a letter: the longest word there. -/
def word (c : Char) (rest : Text) : Segment :=
  let text := c :: rest.takeWhile continuesWord
  lexeme (wordKind text) .none text

/-- The first segment of a source, given its first character and what follows. -/
def first (c : Char) (rest : Text) : Segment :=
  if isBlank c then blank c
  else if let some kind := single? c then lexeme kind .none [c]
  else if let some kinds := paired? c then paired c kinds rest
  else if c = '/' then slash rest
  else if c = '"' then string rest
  else if c.isDigit then number c rest
  else if startsWord c then word c rest
  else stray c

end Segment

/-- The segments of a source in order. -/
def segments : Text → List Segment
  | [] => []
  | c :: rest =>
    let segment := Segment.first c rest
    segment :: segments (rest.drop (segment.text.length - 1))
termination_by source => source.length
decreasing_by simp only [List.length_drop, List.length_cons]; omega

end Lox
