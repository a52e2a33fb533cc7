import Lox.Reading.Basic

/-!
# Reading expressions

Binary operators have four levels, from the loosest to the tightest: equality, comparison, term and
factor. Each level is a chain of operands of the next one and groups to the left. An operand is a
value, a name, a unary operator before another operand, or an expression in parentheses. Unary
operators and parentheses may be nested as deep as an allowance says; the allowance of what is
inside is one less.
-/

namespace Lox

/-- A level of binary operators. -/
inductive Level where
  /-- Equal and not equal. -/
  | equality
  /-- The four orderings. -/
  | comparison
  /-- Sums and differences. -/
  | term
  /-- Products and quotients. -/
  | factor
  deriving DecidableEq, Repr

/-- The operators of a level. -/
def Level.has : Level → Kind → Bool
  | equality, kind => kind = .bangEqual || kind = .equalEqual
  | comparison, kind =>
    kind = .greater || kind = .greaterEqual || kind = .less || kind = .lessEqual
  | term, kind => kind = .minus || kind = .plus
  | factor, kind => kind = .slash || kind = .star

/-- The operators that stand before their operand. -/
def Kind.isUnary (kind : Kind) : Bool := kind = .bang || kind = .minus

namespace Reader

/-- Read on after a left operand: as long as an operator of the level follows, it and another
operand are taken. -/
def chainFrom (level : Level) (operand : Reader Expr) (left : Expr) (tokens : List Token) :
    Reading Expr :=
  match tokens with
  | [] => .accepted left []
  | token :: rest =>
    if level.has token.kind then
      match _taken : operand.run rest with
      | .accepted right after => chainFrom level operand (.binary left token right) after
      | .refused fault after => .refused fault after
    else .accepted left (token :: rest)
termination_by tokens.length
decreasing_by
  have hadv := operand.advances rest
  rw [_taken] at hadv
  exact Nat.lt_succ_of_lt hadv.2

/-- Reading on after an operand leaves the end of what it was given. -/
theorem chainFrom_rest_suffix (level : Level) (operand : Reader Expr) (left : Expr)
    (tokens : List Token) : (chainFrom level operand left tokens).rest <:+ tokens := by
  fun_induction chainFrom level operand left tokens with
  | case1 => exact List.suffix_refl []
  | case2 left token rest hop right after h ih =>
    have hadv := operand.advances rest
    rw [h] at hadv
    exact (ih.trans hadv.1).trans (List.suffix_cons token rest)
  | case3 left token rest hop fault after h =>
    have hadv := operand.advances rest
    rw [h] at hadv
    exact List.IsSuffix.trans hadv (List.suffix_cons token rest)
  | case4 left token rest hop => exact List.suffix_refl _

/-- A chain of operands with operators of one level between them. -/
def chainRun (level : Level) (operand : Reader Expr) (tokens : List Token) : Reading Expr :=
  match operand.run tokens with
  | .accepted left rest => chainFrom level operand left rest
  | .refused fault rest => .refused fault rest

/-- A chain moves forward, as its first operand does. -/
theorem chainRun_advances (level : Level) (operand : Reader Expr) (tokens : List Token) :
    (chainRun level operand tokens).Advances tokens := by
  have hadv := operand.advances tokens
  unfold chainRun
  cases h : operand.run tokens with
  | refused fault rest =>
    rw [h] at hadv
    exact hadv
  | accepted left rest =>
    rw [h] at hadv
    have hs := chainFrom_rest_suffix level operand left rest
    dsimp only
    cases hc : chainFrom level operand left rest with
    | accepted value after =>
      rw [hc] at hs
      exact ⟨hs.trans hadv.1, Nat.lt_of_le_of_lt hs.length_le hadv.2⟩
    | refused fault after =>
      rw [hc] at hs
      exact hs.trans hadv.1

/-- The reader of a chain of operands. -/
def chain (level : Level) (operand : Reader Expr) : Reader Expr :=
  ⟨chainRun level operand, chainRun_advances level operand⟩

/-- The reader of an expression, given the reader of its operands. -/
def levels (operand : Reader Expr) : Reader Expr :=
  chain .equality (chain .comparison (chain .term (chain .factor operand)))

/-- Read what stands after a unary operator. -/
def unaryRun (stop operator : Token) (inner : Option (Reader Expr)) (tokens : List Token) :
    Reading Expr :=
  match inner with
  | none => .refused ⟨peek stop tokens, .nestingTooDeep⟩ tokens
  | some operand =>
    match operand.run tokens with
    | .accepted value rest => .accepted (.unary operator value) rest
    | .refused fault rest => .refused fault rest

/-- Read the closing parenthesis after an expression. -/
def closeRun (stop : Token) (value : Expr) : List Token → Reading Expr
  | [] => .refused ⟨stop, .expectedRightParen⟩ []
  | token :: rest =>
    if token.kind = .rightParen then .accepted (.grouping value) rest
    else .refused ⟨token, .expectedRightParen⟩ (token :: rest)

/-- Read what stands after an opening parenthesis. -/
def groupingRun (stop : Token) (inner : Option (Reader Expr)) (tokens : List Token) :
    Reading Expr :=
  match inner with
  | none => .refused ⟨peek stop tokens, .nestingTooDeep⟩ tokens
  | some operand =>
    match operand.levels.run tokens with
    | .accepted value rest => closeRun stop value rest
    | .refused fault rest => .refused fault rest

/-- Read one operand. The reader of what may be nested in it is missing once the allowance is used
up. -/
def operandRun (stop : Token) (inner : Option (Reader Expr)) : List Token → Reading Expr
  | [] => .refused ⟨stop, .expectedExpression⟩ []
  | token :: rest =>
    if token.kind.isUnary then unaryRun stop token inner rest
    else
      match token.kind with
      | .keyword .falseWord => .accepted (.literal (some (.bool false))) rest
      | .keyword .trueWord => .accepted (.literal (some (.bool true))) rest
      | .keyword .nilWord => .accepted (.literal (some .nil)) rest
      | .number | .string =>
        match token.literal.value? with
        | some value => .accepted (.literal (some value)) rest
        | none => .refused ⟨token, .expectedExpression⟩ rest
      | .identifier => .accepted (.reference token) rest
      | .leftParen => groupingRun stop inner rest
      | _ => .refused ⟨token, .expectedExpression⟩ (token :: rest)

/-- What follows a unary operator moves forward. -/
theorem unaryRun_advances (stop operator : Token) (inner : Option (Reader Expr))
    (tokens : List Token) : (unaryRun stop operator inner tokens).Advances tokens := by
  cases inner with
  | none => exact List.suffix_refl tokens
  | some operand =>
    have hadv := operand.advances tokens
    simp only [unaryRun]
    cases h : operand.run tokens with
    | accepted value rest =>
      rw [h] at hadv
      exact hadv
    | refused fault rest =>
      rw [h] at hadv
      exact hadv

/-- A closing parenthesis moves forward. -/
theorem closeRun_advances (stop : Token) (value : Expr) (tokens : List Token) :
    (closeRun stop value tokens).Advances tokens := by
  cases tokens with
  | nil => exact List.suffix_refl []
  | cons token rest =>
    simp only [closeRun]
    split
    · exact ⟨List.suffix_cons token rest, Nat.lt_succ_self _⟩
    · exact List.suffix_refl _

/-- What follows an opening parenthesis moves forward. -/
theorem groupingRun_advances (stop : Token) (inner : Option (Reader Expr))
    (tokens : List Token) : (groupingRun stop inner tokens).Advances tokens := by
  cases inner with
  | none => exact List.suffix_refl tokens
  | some operand =>
    have hadv := operand.levels.advances tokens
    simp only [groupingRun]
    cases h : operand.levels.run tokens with
    | accepted value rest =>
      rw [h] at hadv
      exact (closeRun_advances stop value rest).mono hadv.1
    | refused fault rest =>
      rw [h] at hadv
      exact hadv

/-- An operand moves forward. -/
theorem operandRun_advances (stop : Token) (inner : Option (Reader Expr)) (tokens : List Token) :
    (operandRun stop inner tokens).Advances tokens := by
  cases tokens with
  | nil => exact List.suffix_refl []
  | cons token rest =>
    have taken : rest <:+ token :: rest ∧ rest.length < (token :: rest).length :=
      ⟨List.suffix_cons token rest, Nat.lt_succ_self _⟩
    simp only [operandRun]
    split
    · exact (unaryRun_advances stop token inner rest).cons token
    · split
      · exact taken
      · exact taken
      · exact taken
      · split
        · exact taken
        · exact taken.1
      · split
        · exact taken
        · exact taken.1
      · exact taken
      · exact (groupingRun_advances stop inner rest).cons token
      · exact List.suffix_refl _

/-- The reader of operands with the given allowance of nesting. -/
def operand (stop : Token) : Nat → Reader Expr
  | 0 => ⟨fun tokens => operandRun stop none tokens, operandRun_advances stop none⟩
  | allowance + 1 =>
    ⟨fun tokens => operandRun stop (some (operand stop allowance)) tokens,
      operandRun_advances stop (some (operand stop allowance))⟩

/-- The reader of expressions with the given allowance of nesting. -/
def expression (stop : Token) (allowance : Nat) : Reader Expr := (operand stop allowance).levels

end Reader

end Lox
