import Lox.Reading.Expression

/-!
# Reading programs

A program is a list of statements, each closed by a semicolon. A statement that cannot be read
leaves a fault; reading resumes at the next boundary, which is after a semicolon or before a word
that opens a statement. The token that reading stopped at is passed over in any case, so every round
takes at least one token.
-/

namespace Lox

/-- How programs are read. -/
structure ReadingOptions where
  /-- How deep unary operators and groupings may be nested. -/
  allowance : Nat := 256
  /-- The last statement may lack its semicolon. -/
  implicitSemicolon : Bool := false

/-- The allowance that a requested limit stands for: the usual one unless the limit is positive. -/
def ReadingOptions.allowanceOf (limit : Int) : Nat :=
  if limit ≤ 0 then ({} : ReadingOptions).allowance else limit.toNat

namespace Reader

/-- Close a statement. -/
def endRun (options : ReadingOptions) (stop : Token) (cause : Cause) (statement : Stmt) :
    List Token → Reading Stmt
  | [] =>
    if options.implicitSemicolon then .accepted statement []
    else .refused ⟨stop, cause⟩ []
  | token :: rest =>
    if token.kind = .semicolon then .accepted statement rest
    else .refused ⟨token, cause⟩ (token :: rest)

/-- Read an expression and close the statement made of it. -/
def valueRun (options : ReadingOptions) (stop : Token) (cause : Cause) (make : Expr → Stmt)
    (tokens : List Token) : Reading Stmt :=
  match (expression stop options.allowance).run tokens with
  | .accepted value rest => endRun options stop cause (make value) rest
  | .refused fault rest => .refused fault rest

/-- Read what stands after the name of a declaration. -/
def initializerRun (options : ReadingOptions) (stop name : Token) : List Token → Reading Stmt
  | [] => endRun options stop .expectedSemicolonAfterDeclaration (.declaration name none) []
  | token :: rest =>
    if token.kind = .equal then
      valueRun options stop .expectedSemicolonAfterDeclaration
        (fun value => .declaration name (some value)) rest
    else
      endRun options stop .expectedSemicolonAfterDeclaration (.declaration name none)
        (token :: rest)

/-- Read what stands after the word that opens a declaration. -/
def declarationRun (options : ReadingOptions) (stop : Token) : List Token → Reading Stmt
  | [] => .refused ⟨stop, .expectedVariableName⟩ []
  | token :: rest =>
    if token.kind = .identifier then initializerRun options stop token rest
    else .refused ⟨token, .expectedVariableName⟩ (token :: rest)

/-- Read one statement. -/
def statementRun (options : ReadingOptions) (stop : Token) : List Token → Reading Stmt
  | [] => .refused ⟨stop, .expectedExpression⟩ []
  | token :: rest =>
    if token.kind = .keyword .varWord then declarationRun options stop rest
    else if token.kind = .keyword .printWord then
      valueRun options stop .expectedSemicolonAfterPrint .print rest
    else
      valueRun options stop .expectedSemicolonAfterExpression .expression (token :: rest)

/-- Closing a statement leaves the end of what it was given. -/
theorem endRun_rest_suffix (options : ReadingOptions) (stop : Token) (cause : Cause)
    (statement : Stmt) (tokens : List Token) :
    (endRun options stop cause statement tokens).rest <:+ tokens := by
  cases tokens with
  | nil =>
    simp only [endRun]
    split <;> exact List.suffix_refl []
  | cons token rest =>
    simp only [endRun]
    split
    · exact List.suffix_cons token rest
    · exact List.suffix_refl _

/-- A statement made of an expression moves forward, as the expression does. -/
theorem valueRun_advances (options : ReadingOptions) (stop : Token) (cause : Cause)
    (make : Expr → Stmt) (tokens : List Token) :
    (valueRun options stop cause make tokens).Advances tokens := by
  have hadv := (expression stop options.allowance).advances tokens
  unfold valueRun
  cases h : (expression stop options.allowance).run tokens with
  | refused fault rest =>
    rw [h] at hadv
    exact hadv
  | accepted value rest =>
    rw [h] at hadv
    have hs := endRun_rest_suffix options stop cause (make value) rest
    dsimp only
    cases hc : endRun options stop cause (make value) rest with
    | accepted statement after =>
      rw [hc] at hs
      exact ⟨hs.trans hadv.1, Nat.lt_of_le_of_lt hs.length_le hadv.2⟩
    | refused fault after =>
      rw [hc] at hs
      exact hs.trans hadv.1

/-- A reading that leaves the end of what follows a token moves forward over the token. -/
theorem advances_cons_of_suffix {α : Type} {token : Token} {rest : List Token}
    {reading : Reading α} (hs : reading.rest <:+ rest) : reading.Advances (token :: rest) := by
  cases reading with
  | accepted value after =>
    exact ⟨hs.trans (List.suffix_cons token rest), Nat.lt_succ_of_le hs.length_le⟩
  | refused fault after => exact hs.trans (List.suffix_cons token rest)

/-- A reading that moves forward leaves the end of what it was given. -/
theorem rest_suffix_of_advances {α : Type} {tokens : List Token} {reading : Reading α}
    (h : reading.Advances tokens) : reading.rest <:+ tokens := by
  cases reading with
  | accepted value rest => exact h.1
  | refused fault rest => exact h

/-- What follows the name of a declaration leaves the end of what it was given. -/
theorem initializerRun_rest_suffix (options : ReadingOptions) (stop name : Token)
    (tokens : List Token) : (initializerRun options stop name tokens).rest <:+ tokens := by
  cases tokens with
  | nil =>
    simp only [initializerRun]
    exact endRun_rest_suffix _ _ _ _ _
  | cons token rest =>
    simp only [initializerRun]
    split
    · exact (rest_suffix_of_advances (valueRun_advances _ _ _ _ rest)).trans
        (List.suffix_cons token rest)
    · exact endRun_rest_suffix _ _ _ _ _

/-- What follows the word that opens a declaration leaves the end of what it was given. -/
theorem declarationRun_rest_suffix (options : ReadingOptions) (stop : Token)
    (tokens : List Token) : (declarationRun options stop tokens).rest <:+ tokens := by
  cases tokens with
  | nil => exact List.suffix_refl []
  | cons token rest =>
    simp only [declarationRun]
    split
    · exact (initializerRun_rest_suffix options stop token rest).trans
        (List.suffix_cons token rest)
    · exact List.suffix_refl _

/-- A statement moves forward. -/
theorem statementRun_advances (options : ReadingOptions) (stop : Token) (tokens : List Token) :
    (statementRun options stop tokens).Advances tokens := by
  cases tokens with
  | nil => exact List.suffix_refl []
  | cons token rest =>
    simp only [statementRun]
    split
    · exact advances_cons_of_suffix (declarationRun_rest_suffix options stop rest)
    · split
      · exact (valueRun_advances _ _ _ _ rest).cons token
      · exact valueRun_advances _ _ _ _ (token :: rest)

/-- The next boundary after a token that was passed over. -/
def boundaryAfter (passed : Token) : List Token → List Token
  | [] => []
  | token :: rest =>
    if passed.kind = .semicolon ∨ token.kind.opensStatement then token :: rest
    else boundaryAfter token rest

/-- Where reading resumes after a fault that left these tokens. -/
def resume : List Token → List Token
  | [] => []
  | token :: rest => boundaryAfter token rest

/-- A boundary is found among the tokens given. -/
theorem boundaryAfter_suffix (passed : Token) (tokens : List Token) :
    boundaryAfter passed tokens <:+ tokens := by
  induction tokens generalizing passed with
  | nil => exact List.suffix_refl []
  | cons token rest ih =>
    simp only [boundaryAfter]
    split
    · exact List.suffix_refl _
    · exact (ih token).trans (List.suffix_cons token rest)

/-- Resuming leaves fewer tokens than any list that ends with the ones given. -/
theorem length_resume_lt {token : Token} {rest left : List Token} (h : left <:+ token :: rest) :
    (resume left).length < (token :: rest).length := by
  cases left with
  | nil => exact Nat.succ_pos _
  | cons first others =>
    exact Nat.lt_of_lt_of_le
      (Nat.lt_succ_of_le (boundaryAfter_suffix first others).length_le) h.length_le

/-- Read statements to the end: in order, what each round made of the tokens before it. -/
def program (options : ReadingOptions) (stop : Token) (tokens : List Token) :
    List (Except SyntaxFault Stmt) :=
  match tokens with
  | [] => []
  | token :: rest =>
    match _taken : statementRun options stop (token :: rest) with
    | .accepted statement after => .ok statement :: program options stop after
    | .refused fault left => .error fault :: program options stop (resume left)
termination_by tokens.length
decreasing_by
  · have hadv := statementRun_advances options stop (token :: rest)
    rw [_taken] at hadv
    exact hadv.2
  · have hadv := statementRun_advances options stop (token :: rest)
    rw [_taken] at hadv
    exact length_resume_lt hadv

end Reader

end Lox
