import Lox.Fault.Basic
import Lox.Tree.Basic

/-!
# Readers

A reader takes tokens from the front of a list and makes one thing of them, or stops at a token that
does not fit. Either way it hands back the tokens it has not taken. What it hands back is always the
end of what it was given, and it never accepts without taking a token, so readers can be repeated.
-/

namespace Lox

/-- What a reader makes of a token list. -/
inductive Reading (α : Type) where
  /-- Something was read, and these tokens are left. -/
  | accepted (value : α) (rest : List Token)
  /-- Reading stopped with a fault, and these tokens are left. -/
  | refused (fault : SyntaxFault) (rest : List Token)

namespace Reading

/-- The tokens that are left. -/
def rest {α : Type} : Reading α → List Token
  | accepted _ rest => rest
  | refused _ rest => rest

/-- Only the end of the given tokens is left, and less than all of them after acceptance. -/
def Advances {α : Type} (tokens : List Token) : Reading α → Prop
  | accepted _ rest => rest <:+ tokens ∧ rest.length < tokens.length
  | refused _ rest => rest <:+ tokens

/-- Tokens taken before a reading keep it advancing. -/
theorem Advances.cons {α : Type} {tokens : List Token} {reading : Reading α}
    (h : reading.Advances tokens) (token : Token) : reading.Advances (token :: tokens) := by
  cases reading with
  | accepted value rest =>
    exact ⟨h.1.trans (List.suffix_cons token tokens), Nat.lt_succ_of_lt h.2⟩
  | refused fault rest => exact h.trans (List.suffix_cons token tokens)

/-- A reading that advances on the end of a token list advances on the list. -/
theorem Advances.mono {α : Type} {inner tokens : List Token} {reading : Reading α}
    (h : reading.Advances inner) (hs : inner <:+ tokens) : reading.Advances tokens := by
  cases reading with
  | accepted value rest => exact ⟨h.1.trans hs, Nat.lt_of_lt_of_le h.2 hs.length_le⟩
  | refused fault rest => exact h.trans hs

end Reading

/-- A way to read one thing from the front of a token list. -/
structure Reader (α : Type) where
  /-- Read from the front of these tokens. -/
  run : List Token → Reading α
  /-- Reading moves forward. -/
  advances : ∀ tokens, (run tokens).Advances tokens

/-- The next token, where `stop` stands after all tokens. -/
def peek (stop : Token) (tokens : List Token) : Token := tokens.headD stop

end Lox
