import Lox.Fault.Cause
import Lox.Token.Basic

/-!
# Faults

A fault of the source has a line and perhaps details, a fault of reading or evaluation has the token
it happened at. Faults may be wrapped in a message or joined; such a tree of faults has the line of
its first fault that has one, in reading order.
-/

namespace Lox

/-- Something in the source that is no token. -/
structure ScanFault where
  /-- The line of the last character concerned. -/
  line : Int
  /-- What is wrong. -/
  cause : Cause
  /-- The text concerned, quoted, or nothing. -/
  details : Text
  deriving DecidableEq

/-- A token that does not continue the tree being read. -/
structure SyntaxFault where
  /-- The token at which reading stopped. -/
  token : Token
  /-- What is wrong. -/
  cause : Cause
  deriving DecidableEq

/-- An operation that cannot be carried out. -/
structure RuntimeFault where
  /-- The operator or the name of the operation. -/
  token : Token
  /-- What is wrong. -/
  cause : Cause
  deriving DecidableEq

/-- The line a message is about, as it stands in the message. -/
def lineMark (line : Int) : Text := "[line ".toList ++ Text.ofInt line ++ [']']

/-- The message of a fault of the source. -/
def ScanFault.message (fault : ScanFault) : Text :=
  lineMark fault.line ++ " Error: ".toList ++ fault.cause.message ++
    (if fault.details = [] then [] else ' ' :: fault.details)

/-- The message of a fault of reading. -/
def SyntaxFault.message (fault : SyntaxFault) : Text :=
  lineMark fault.token.line ++ " Error ".toList ++ fault.token.location ++ ": ".toList ++
    fault.cause.message

/-- The message of a fault of evaluation. -/
def RuntimeFault.message (fault : RuntimeFault) : Text :=
  fault.cause.message ++ '\n' :: lineMark fault.token.line

/-- A tree of faults. -/
inductive Fault where
  /-- A fault of the source. -/
  | scan (fault : ScanFault)
  /-- A fault of reading. -/
  | parse (fault : SyntaxFault)
  /-- A fault of evaluation. -/
  | runtime (fault : RuntimeFault)
  /-- A cause without a place. -/
  | bare (cause : Cause)
  /-- Anything else that has only a message. -/
  | plain (text : Text)
  /-- A fault with a message before it. -/
  | wrapped (text : Text) (inner : Fault)
  /-- Several faults in order. -/
  | joined (parts : List Fault)

namespace Fault

mutual

/-- The faults of a tree that are no wrapping and no joining, in reading order. -/
def leaves : Fault → List Fault
  | wrapped _ inner => inner.leaves
  | joined parts => leavesOf parts
  | fault => [fault]

/-- The leaves of several trees in order. -/
def leavesOf : List Fault → List Fault
  | [] => []
  | part :: parts => part.leaves ++ leavesOf parts

end

mutual

/-- The message of a tree: wrapping puts its text in front, joining writes one message a line. -/
def message : Fault → Text
  | scan fault => fault.message
  | parse fault => fault.message
  | runtime fault => fault.message
  | bare cause => cause.message
  | plain text => text
  | wrapped text inner => text ++ ": ".toList ++ inner.message
  | joined parts => Text.join ['\n'] (messages parts)

/-- The messages of several trees in order. -/
def messages : List Fault → List Text
  | [] => []
  | part :: parts => part.message :: messages parts

end

/-- The line of a fault that is a leaf. -/
def ownLine? : Fault → Option Int
  | scan fault => some fault.line
  | parse fault => some fault.token.line
  | runtime fault => some fault.token.line
  | _ => none

/-- The cause of a fault that is a leaf. -/
def ownCause? : Fault → Option Cause
  | scan fault => some fault.cause
  | parse fault => some fault.cause
  | runtime fault => some fault.cause
  | bare cause => some cause
  | _ => none

/-- The first line in a tree. -/
def line? (fault : Fault) : Option Int := fault.leaves.findSome? ownLine?

/-- Whether a cause occurs in a tree, whatever name it concerns. -/
def hasCause (fault : Fault) (cause : Cause) : Bool :=
  fault.leaves.any fun leaf => leaf.ownCause?.map Cause.general == some cause

/-- Put a message before a fault; where there is none, the message says so. -/
def wrap (text : Text) : Option Fault → Fault
  | some inner => wrapped text inner
  | none => plain (text ++ ": %!w(<nil>)".toList)

/-- All faults there are, as one; none if there are none. -/
def join (parts : List (Option Fault)) : Option Fault :=
  match parts.filterMap id with
  | [] => none
  | faults => some (joined faults)

end Fault

end Lox
