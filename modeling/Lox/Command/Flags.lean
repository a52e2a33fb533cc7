import Lox.Text.Quoted

/-!
# Flags

Arguments are taken from left to right. A long flag is written with two dashes and its name, a short
one with one dash and its letter, and letters may stand together. A switch is on when it is given
and may be given a truth value after an equals sign; any other flag takes its value from after an
equals sign, from after its letter, or from the next argument, whatever that looks like. A later
value replaces an earlier one. Two dashes alone end the flags, and one dash alone is no flag.
-/

namespace Lox

/-- A flag of the command line. -/
inductive Flag where
  /-- Evaluate an expression that is given as the value. -/
  | eval
  /-- Describe the command. -/
  | help
  /-- The least level of records that are written. -/
  | logLevel
  /-- Write trees in a given style. -/
  | printAst
  /-- Write tokens. -/
  | printTokens
  deriving DecidableEq, Repr

namespace Flag

/-- All flags in the order of their names. -/
def all : List Flag := [eval, help, logLevel, printAst, printTokens]

/-- The long name of a flag. -/
def name : Flag → Text
  | eval => "eval".toList
  | help => "help".toList
  | logLevel => "log-level".toList
  | printAst => "print-ast".toList
  | printTokens => "print-tokens".toList

/-- The letter of a flag that has one. -/
def letter? : Flag → Option Char
  | eval => some 'e'
  | help => some 'h'
  | _ => none

/-- A flag whose value is a truth value and may be left out. -/
def isSwitch : Flag → Bool
  | help | printTokens => true
  | _ => false

/-- The flag with a long name. -/
def ofName? (name : Text) : Option Flag := all.find? fun flag => flag.name == name

/-- The flag with a letter. -/
def ofLetter? (letter : Char) : Option Flag := all.find? fun flag => flag.letter? == some letter

/-- How messages name a flag. -/
def label (flag : Flag) : Text :=
  match flag.letter? with
  | some letter => '-' :: letter :: ", --".toList ++ flag.name
  | none => "--".toList ++ flag.name

end Flag

/-- Why a command line cannot be followed. -/
inductive UsageFault where
  /-- Two dashes with something that cannot be a name after them. -/
  | badFlag (argument : Text)
  /-- A long flag that does not exist. -/
  | unknownFlag (name : Text)
  /-- A letter that is no flag, with the letters after it. -/
  | unknownLetter (letter : Char) (after : Text)
  /-- A long flag at the end that lacks its value. -/
  | missingValue (flag : Flag)
  /-- A letter at the end that lacks its value. -/
  | missingLetterValue (letter : Char)
  /-- A value that is no truth value. -/
  | invalidSwitch (value : Text) (flag : Flag)
  /-- More than one script. -/
  | tooManyArguments (count : Nat)
  /-- A script beside an expression to evaluate. -/
  | scriptWithEval
  /-- A style of trees that does not exist. -/
  | unknownStyle (name : Text)
  /-- A level of records that does not exist. -/
  | unknownLevel (name : Text)
  deriving DecidableEq

namespace UsageFault

/-- The first byte of a character as a character of its own, which is how an unknown letter is
named. -/
def leadingByte (letter : Char) : Char :=
  match String.utf8EncodeChar letter with
  | byte :: _ => Char.ofNat byte.toNat
  | [] => letter

/-- The wording of a fault of the command line. -/
def message : UsageFault → Text
  | badFlag argument => "bad flag syntax: ".toList ++ argument
  | unknownFlag name => "unknown flag: --".toList ++ name
  | unknownLetter letter after =>
    "unknown shorthand flag: ".toList ++ Quoted.char (leadingByte letter) ++ " in -".toList ++
      letter :: after
  | missingValue flag => "flag needs an argument: --".toList ++ flag.name
  | missingLetterValue letter =>
    "flag needs an argument: ".toList ++ Quoted.char letter ++ " in -".toList ++ [letter]
  | invalidSwitch value flag =>
    "invalid argument ".toList ++ Quoted.text value ++ " for ".toList ++ Quoted.text flag.label ++
      " flag: strconv.ParseBool: parsing ".toList ++ Quoted.text value ++
      ": invalid syntax".toList
  | tooManyArguments count =>
    "accepts at most 1 arg(s), received ".toList ++ Text.ofNat count
  | scriptWithEval => "usage error: --eval does not take a script".toList
  | unknownStyle name => "unknown AST printer: ".toList ++ Quoted.text name
  | unknownLevel name => "unknown log level: ".toList ++ Quoted.text name

end UsageFault

/-- What the flags of a command line say. -/
structure Flags where
  /-- The expression to evaluate, if the flag for it was given. -/
  eval : Option Text := none
  /-- The name of the style of trees, empty for none. -/
  printAst : Text := []
  /-- Whether tokens are written. -/
  printTokens : Bool := false
  /-- The name of the least level of records. -/
  logLevel : Text := "warn".toList
  /-- Whether the command is to be described. -/
  help : Bool := false
  /-- The arguments that are no flags, in order. -/
  arguments : List Text := []

namespace Flags

/-- The truth value that a text stands for. -/
def switch? (text : Text) : Option Bool :=
  if ["1", "t", "T", "TRUE", "true", "True"].any (·.toList == text) then some true
  else if ["0", "f", "F", "FALSE", "false", "False"].any (·.toList == text) then some false
  else none

/-- Give a flag a value. -/
def set (flags : Flags) (flag : Flag) (value : Text) : Except UsageFault Flags :=
  match flag with
  | .eval => .ok { flags with eval := some value }
  | .logLevel => .ok { flags with logLevel := value }
  | .printAst => .ok { flags with printAst := value }
  | .help =>
    match switch? value with
    | some on => .ok { flags with help := on }
    | none => .error (.invalidSwitch value flag)
  | .printTokens =>
    match switch? value with
    | some on => .ok { flags with printTokens := on }
    | none => .error (.invalidSwitch value flag)

/-- What one argument leaves to be done: nothing, or to find a value for a flag in the next argument
and to fail if there is none. -/
abbrev Pending := Option (Flag × UsageFault)

/-- The value of a switch that is given without one. -/
def on : Text := "true".toList

/-- Take what stands after two dashes. -/
def long (flags : Flags) (body : Text) : Except UsageFault (Flags × Pending) :=
  let name := body.takeWhile (· != '=')
  if body.head? = some '-' ∨ name = [] then .error (.badFlag ("--".toList ++ body))
  else
    match Flag.ofName? name with
    | none => .error (.unknownFlag name)
    | some flag =>
      match body.drop name.length with
      | _ :: value => (flags.set flag value).map (·, none)
      | [] =>
        if flag.isSwitch then (flags.set flag on).map (·, none)
        else .ok (flags, some (flag, .missingValue flag))

/-- Take the letters that stand after one dash. Letters that begin like a flag of a test run are
passed over. -/
def short (flags : Flags) : Text → Except UsageFault (Flags × Pending)
  | [] => .ok (flags, none)
  | letter :: after =>
    if "test.".toList.isPrefixOf (letter :: after) then .ok (flags, none)
    else
      match Flag.ofLetter? letter with
      | none => .error (.unknownLetter letter after)
      | some flag =>
        if after.head? = some '=' ∧ 1 < after.length then
          (flags.set flag (after.drop 1)).map (·, none)
        else if flag.isSwitch then
          match flags.set flag on with
          | .error fault => .error fault
          | .ok flags => short flags after
        else if after = [] then .ok (flags, some (flag, .missingLetterValue letter))
        else (flags.set flag after).map (·, none)

/-- Take one argument that is not the end of the flags. -/
def argument (flags : Flags) : Text → Except UsageFault (Flags × Pending)
  | '-' :: '-' :: body => flags.long body
  | '-' :: letter :: after => flags.short (letter :: after)
  | text => .ok ({ flags with arguments := flags.arguments ++ [text] }, none)

/-- Take all arguments. -/
def parse (flags : Flags) : List Text → Except UsageFault Flags
  | [] => .ok flags
  | argument :: rest =>
    if argument = "--".toList then .ok { flags with arguments := flags.arguments ++ rest }
    else
      match flags.argument argument with
      | .error fault => .error fault
      | .ok (flags, none) => parse flags rest
      | .ok (flags, some (flag, missing)) =>
        match rest with
        | [] => .error missing
        | value :: rest =>
          match flags.set flag value with
          | .error fault => .error fault
          | .ok flags => parse flags rest

end Flags

end Lox
