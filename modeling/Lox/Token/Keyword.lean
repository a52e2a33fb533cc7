import Lox.Text.Basic

/-!
# Keywords

The sixteen reserved words. A word of the source is reserved exactly when it is spelled like one of
them.
-/

namespace Lox

/-- A reserved word. -/
inductive Keyword where
  /-- Reserved for conjunction. -/
  | andWord
  /-- Reserved for class declarations. -/
  | classWord
  /-- Reserved for the other branch of a condition. -/
  | elseWord
  /-- The false truth value. -/
  | falseWord
  /-- Reserved for loops with a counter. -/
  | forWord
  /-- Reserved for function declarations. -/
  | funWord
  /-- Reserved for conditions. -/
  | ifWord
  /-- The value nil. -/
  | nilWord
  /-- Reserved for disjunction. -/
  | orWord
  /-- Starts a print statement. -/
  | printWord
  /-- Reserved for returning from a function. -/
  | returnWord
  /-- Reserved for the parent class. -/
  | superWord
  /-- Reserved for the receiver of a method. -/
  | thisWord
  /-- The true truth value. -/
  | trueWord
  /-- Starts a variable declaration. -/
  | varWord
  /-- Reserved for loops with a condition. -/
  | whileWord
  deriving DecidableEq, Repr

namespace Keyword

/-- All keywords, in the order of their spellings. -/
def all : List Keyword := [
  andWord, classWord, elseWord, falseWord, forWord, funWord, ifWord, nilWord,
  orWord, printWord, returnWord, superWord, thisWord, trueWord, varWord, whileWord]

/-- How a keyword is written in the source. -/
def spelling : Keyword → Text
  | andWord => "and".toList
  | classWord => "class".toList
  | elseWord => "else".toList
  | falseWord => "false".toList
  | forWord => "for".toList
  | funWord => "fun".toList
  | ifWord => "if".toList
  | nilWord => "nil".toList
  | orWord => "or".toList
  | printWord => "print".toList
  | returnWord => "return".toList
  | superWord => "super".toList
  | thisWord => "this".toList
  | trueWord => "true".toList
  | varWord => "var".toList
  | whileWord => "while".toList

/-- The keyword with the given spelling, if there is one. -/
def ofText? (word : Text) : Option Keyword := all.find? fun keyword => keyword.spelling == word

/-- A statement can only begin here, so reading may resume before such a word. -/
def opensStatement : Keyword → Bool
  | classWord | funWord | varWord | forWord | ifWord | whileWord | printWord | returnWord => true
  | _ => false

end Keyword

end Lox
