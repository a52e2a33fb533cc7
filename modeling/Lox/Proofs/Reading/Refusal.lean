import Lox.Proofs.Reading.Program

/-!
# Faults of reading

A fault of reading names a token of the list that was read, or the end of the source, and its cause
fits that token: what was expected is not what stands there. In particular an expression is missed
only at a token that begins none, or at a number or string whose literal is no value.
-/

namespace Lox

/-- The token of a fault is not what its cause says was expected. -/
def SyntaxFault.Apt (fault : SyntaxFault) : Prop :=
  match fault.cause with
  | .expectedExpression =>
    fault.token.kind.opensExpression = false ∨
      (fault.token.kind = .number ∨ fault.token.kind = .string) ∧ fault.token.value? = none
  | .expectedVariableName => fault.token.kind ≠ .identifier
  | .expectedRightParen => fault.token.kind ≠ .rightParen
  | .expectedSemicolonAfterPrint => fault.token.kind ≠ .semicolon
  | .expectedSemicolonAfterExpression => fault.token.kind ≠ .semicolon
  | .expectedSemicolonAfterDeclaration => fault.token.kind ≠ .semicolon
  | .nestingTooDeep => True
  | _ => False

/-- A fault can come from reading the tokens, after which stands `stop`. -/
structure SyntaxFault.Arises (stop : Token) (tokens : List Token) (fault : SyntaxFault) :
    Prop where
  /-- The fault is at one of the tokens or at their end. -/
  named : fault.token ∈ stop :: tokens
  /-- Its cause fits. -/
  apt : fault.Apt

/-- A fault from reading the end of a token list comes from reading the list. -/
theorem SyntaxFault.Arises.mono {stop : Token} {inner tokens : List Token} {fault : SyntaxFault}
    (h : fault.Arises stop inner) (hs : inner <:+ tokens) : fault.Arises stop tokens := by
  refine ⟨?_, h.apt⟩
  rcases List.mem_cons.mp h.named with heq | hmem
  · exact List.mem_cons.mpr (.inl heq)
  · exact List.mem_cons_of_mem stop (hs.subset hmem)

/-- A reading that stopped has a fault that can come from the tokens. -/
def Reading.Explained {α : Type} (stop : Token) (tokens : List Token) : Reading α → Prop
  | accepted _ _ => True
  | refused fault _ => fault.Arises stop tokens

/-- What explains a reading of the end of a token list explains the reading of the list. -/
theorem Reading.Explained.mono {α : Type} {stop : Token} {inner tokens : List Token}
    {reading : Reading α} (h : reading.Explained stop inner) (hs : inner <:+ tokens) :
    reading.Explained stop tokens := by
  cases reading with
  | accepted value rest => trivial
  | refused fault rest => exact SyntaxFault.Arises.mono h hs

/-- A token that begins no operand begins no expression, or it is a number or string without a
value. -/
theorem Token.opens_or_value?_eq_none (token : Token) (hunary : ¬ token.kind.isUnary = true)
    (hvalue : token.value? = none) (hname : token.kind ≠ .identifier)
    (hparen : token.kind ≠ .leftParen) :
    token.kind.opensExpression = false ∨
      (token.kind = .number ∨ token.kind = .string) ∧ token.value? = none := by
  by_cases hliteral : token.kind = .number ∨ token.kind = .string
  · exact .inr ⟨hliteral, hvalue⟩
  · left
    unfold Token.value? at hvalue
    unfold Kind.opensExpression
    split <;> simp_all [Kind.isUnary]

namespace Reader

/-- Whenever the reader stops, its fault can come from the tokens. -/
def Explains {α : Type} (stop : Token) (reader : Reader α) : Prop :=
  ∀ tokens, (reader.run tokens).Explained stop tokens

section Expressions

variable {stop : Token} {reader : Reader Expr}

/-- Reading on after an operand stops only with a fault of a later operand. -/
theorem chainFrom_explained (hreader : reader.Explains stop) (level : Level) (left : Expr)
    (tokens : List Token) : (chainFrom level reader left tokens).Explained stop tokens := by
  fun_induction chainFrom level reader left tokens with
  | case1 => trivial
  | case2 left token rest hop right after h ih =>
    have hadv := reader.advances rest
    rw [h] at hadv
    exact ih.mono (hadv.1.trans (List.suffix_cons token rest))
  | case3 left token rest hop fault after h =>
    have hrest := hreader rest
    rw [h] at hrest
    exact hrest.mono (List.suffix_cons token rest)
  | case4 left token rest hop => trivial

/-- A chain stops only with a fault of one of its operands. -/
theorem chain_explains (hreader : reader.Explains stop) (level : Level) :
    (chain level reader).Explains stop := by
  intro tokens
  have hfirst := hreader tokens
  have hadv := reader.advances tokens
  change (chainRun level reader tokens).Explained stop tokens
  unfold chainRun
  cases h : reader.run tokens with
  | refused fault rest =>
    rw [h] at hfirst
    exact hfirst
  | accepted left rest =>
    rw [h] at hadv
    exact (chainFrom_explained hreader level left rest).mono hadv.1

/-- An expression stops only with a fault of one of its operands. -/
theorem levels_explains (hreader : reader.Explains stop) : reader.levels.Explains stop :=
  chain_explains (chain_explains (chain_explains (chain_explains hreader .factor) .term)
    .comparison) .equality

/-- The next token is one of those that are left, or stands after them. -/
theorem peek_mem (stop : Token) (tokens : List Token) : peek stop tokens ∈ stop :: tokens := by
  cases tokens with
  | nil => exact List.mem_singleton_self stop
  | cons token rest => exact List.mem_cons_of_mem stop List.mem_cons_self

/-- What stands after a unary operator is nested too deep or stops as an operand does. -/
theorem unaryRun_explained {inner : Option (Reader Expr)}
    (hinner : ∀ reader ∈ inner, reader.Explains stop) (operator : Token) (tokens : List Token) :
    (unaryRun stop operator inner tokens).Explained stop tokens := by
  cases inner with
  | none => exact ⟨peek_mem stop tokens, trivial⟩
  | some reader =>
    have hreader := hinner reader rfl tokens
    simp only [unaryRun]
    cases h : reader.run tokens with
    | accepted value rest => trivial
    | refused fault rest =>
      rw [h] at hreader
      exact hreader

/-- A closing parenthesis is missed at another token. -/
theorem closeRun_explained (hstop : stop.isEnd = true) (value : Expr) (tokens : List Token) :
    (closeRun stop value tokens).Explained stop tokens := by
  have hend : stop.kind = .endOfSource := eq_of_beq hstop
  cases tokens with
  | nil => exact ⟨List.mem_singleton_self stop, by simp [SyntaxFault.Apt, hend]⟩
  | cons token rest =>
    simp only [closeRun]
    split
    · trivial
    · rename_i hkind
      exact ⟨List.mem_cons_of_mem stop List.mem_cons_self, hkind⟩

/-- What stands after an opening parenthesis is nested too deep, stops as an expression does or is
not closed. -/
theorem groupingRun_explained (hstop : stop.isEnd = true) {inner : Option (Reader Expr)}
    (hinner : ∀ reader ∈ inner, reader.Explains stop) (tokens : List Token) :
    (groupingRun stop inner tokens).Explained stop tokens := by
  cases inner with
  | none => exact ⟨peek_mem stop tokens, trivial⟩
  | some reader =>
    have hreader := levels_explains (hinner reader rfl) tokens
    have hadv := reader.levels.advances tokens
    simp only [groupingRun]
    cases h : reader.levels.run tokens with
    | accepted value rest =>
      rw [h] at hadv
      exact (closeRun_explained hstop value rest).mono hadv.1
    | refused fault rest =>
      rw [h] at hreader
      exact hreader

/-- An operand is missed at a token that begins none, and otherwise stops inside of it. -/
theorem operandRun_explained (hstop : stop.isEnd = true) {inner : Option (Reader Expr)}
    (hinner : ∀ reader ∈ inner, reader.Explains stop) (tokens : List Token) :
    (operandRun stop inner tokens).Explained stop tokens := by
  have hend : stop.kind = .endOfSource := eq_of_beq hstop
  cases tokens with
  | nil => exact ⟨List.mem_singleton_self stop, .inl (by rw [hend]; rfl)⟩
  | cons token rest =>
    have hmem : token ∈ stop :: token :: rest := List.mem_cons_of_mem stop List.mem_cons_self
    have htail : rest <:+ token :: rest := List.suffix_cons token rest
    rw [operandRun_cons]
    split
    · exact (unaryRun_explained hinner token rest).mono htail
    · rename_i hunary
      split
      · trivial
      · rename_i hvalue
        split
        · trivial
        · rename_i hname
          split
          · exact (groupingRun_explained hstop hinner rest).mono htail
          · rename_i hparen
            exact ⟨hmem, token.opens_or_value?_eq_none hunary hvalue hname hparen⟩

/-- The reader of operands is explained at every allowance. -/
theorem operand_explains (hstop : stop.isEnd = true) (allowance : Nat) :
    (operand stop allowance).Explains stop := by
  induction allowance with
  | zero =>
    intro tokens
    exact operandRun_explained hstop (fun reader hnone => by cases hnone) tokens
  | succ allowance ih =>
    intro tokens
    refine operandRun_explained hstop (fun reader hsome => ?_) tokens
    cases hsome
    exact ih

/-- The reader of expressions is explained at every allowance. -/
theorem expression_explains (hstop : stop.isEnd = true) (allowance : Nat) :
    (expression stop allowance).Explains stop :=
  levels_explains (operand_explains hstop allowance)

end Expressions

section Statements

variable {options : ReadingOptions} {stop : Token}

/-- The causes of a statement that is not closed. -/
def missesSemicolon : Cause → Bool
  | .expectedSemicolonAfterPrint => true
  | .expectedSemicolonAfterExpression => true
  | .expectedSemicolonAfterDeclaration => true
  | _ => false

/-- A semicolon is missed at another token. -/
theorem apt_of_missesSemicolon {cause : Cause} (hcause : missesSemicolon cause = true)
    {token : Token} (htoken : token.kind ≠ .semicolon) : SyntaxFault.Apt ⟨token, cause⟩ := by
  cases cause <;> simp_all [missesSemicolon, SyntaxFault.Apt]

/-- A statement is closed, or a semicolon is missed. -/
theorem endRun_explained (hstop : stop.isEnd = true) {cause : Cause}
    (hcause : missesSemicolon cause = true) (statement : Stmt) (tokens : List Token) :
    (endRun options stop cause statement tokens).Explained stop tokens := by
  have hend : stop.kind = .endOfSource := eq_of_beq hstop
  cases tokens with
  | nil =>
    simp only [endRun]
    split
    · trivial
    · exact ⟨List.mem_singleton_self stop, apt_of_missesSemicolon hcause (by simp [hend])⟩
  | cons token rest =>
    simp only [endRun]
    split
    · trivial
    · rename_i hkind
      exact ⟨List.mem_cons_of_mem stop List.mem_cons_self, apt_of_missesSemicolon hcause hkind⟩

/-- A statement made of an expression stops as the expression does or is not closed. -/
theorem valueRun_explained (hstop : stop.isEnd = true) {cause : Cause}
    (hcause : missesSemicolon cause = true) (make : Expr → Stmt) (tokens : List Token) :
    (valueRun options stop cause make tokens).Explained stop tokens := by
  have hvalue := expression_explains hstop options.allowance tokens
  have hadv := (expression stop options.allowance).advances tokens
  unfold valueRun
  cases h : (expression stop options.allowance).run tokens with
  | refused fault rest =>
    rw [h] at hvalue
    exact hvalue
  | accepted value rest =>
    rw [h] at hadv
    exact (endRun_explained hstop hcause (make value) rest).mono hadv.1

/-- What follows the name of a declaration stops in its expression or is not closed. -/
theorem initializerRun_explained (hstop : stop.isEnd = true) (name : Token)
    (tokens : List Token) : (initializerRun options stop name tokens).Explained stop tokens := by
  cases tokens with
  | nil => exact endRun_explained hstop rfl _ []
  | cons token rest =>
    simp only [initializerRun]
    split
    · exact (valueRun_explained hstop rfl _ rest).mono (List.suffix_cons token rest)
    · exact endRun_explained hstop rfl _ (token :: rest)

/-- A name is missed at another token. -/
theorem declarationRun_explained (hstop : stop.isEnd = true) (tokens : List Token) :
    (declarationRun options stop tokens).Explained stop tokens := by
  have hend : stop.kind = .endOfSource := eq_of_beq hstop
  cases tokens with
  | nil => exact ⟨List.mem_singleton_self stop, by simp [SyntaxFault.Apt, hend]⟩
  | cons token rest =>
    simp only [declarationRun]
    split
    · exact (initializerRun_explained hstop token rest).mono (List.suffix_cons token rest)
    · rename_i hkind
      exact ⟨List.mem_cons_of_mem stop List.mem_cons_self, hkind⟩

/-- A statement stops with a fault of its own kind. -/
theorem statementRun_explained (hstop : stop.isEnd = true) (tokens : List Token) :
    (statementRun options stop tokens).Explained stop tokens := by
  have hend : stop.kind = .endOfSource := eq_of_beq hstop
  cases tokens with
  | nil => exact ⟨List.mem_singleton_self stop, .inl (by rw [hend]; rfl)⟩
  | cons token rest =>
    simp only [statementRun]
    split
    · exact (declarationRun_explained hstop rest).mono (List.suffix_cons token rest)
    · split
      · exact (valueRun_explained hstop rfl _ rest).mono (List.suffix_cons token rest)
      · exact valueRun_explained hstop rfl _ (token :: rest)

/-- Reading resumes at an end of the tokens that a fault left. -/
theorem resume_suffix (left : List Token) : resume left <:+ left := by
  cases left with
  | nil => exact List.suffix_refl []
  | cons token rest =>
    exact (boundaryAfter_suffix token rest).trans (List.suffix_cons token rest)

/-- Every fault of reading a program can come from its tokens. -/
theorem arises_of_mem_program (hstop : stop.isEnd = true) {tokens : List Token}
    {fault : SyntaxFault} (hmem : .error fault ∈ program options stop tokens) :
    fault.Arises stop tokens := by
  fun_induction program options stop tokens with
  | case1 => cases hmem
  | case2 token rest statement after h ih =>
    have hadv := statementRun_advances options stop (token :: rest)
    rw [h] at hadv
    rcases List.mem_cons.mp hmem with heq | hmem
    · cases heq
    · exact (ih hmem).mono hadv.1
  | case3 token rest refusal left h ih =>
    have hadv := statementRun_advances options stop (token :: rest)
    have hown : (statementRun options stop (token :: rest)).Explained stop (token :: rest) :=
      statementRun_explained hstop (token :: rest)
    rw [h] at hadv hown
    rcases List.mem_cons.mp hmem with heq | hmem
    · cases heq
      exact hown
    · exact (ih hmem).mono ((resume_suffix left).trans hadv)

end Statements

end Reader

namespace Parser

/-- Every fault of reading a program can come from the tokens that were left. -/
theorem arises_of_mem_faults {parser : Parser} (hstop : parser.stop.isEnd = true)
    {fault : SyntaxFault} (hmem : fault ∈ parser.program.1.faults) :
    fault.Arises parser.stop parser.rest := by
  obtain ⟨round, hround, hfault⟩ := List.mem_filterMap.mp hmem
  cases round with
  | ok statement => cases hfault
  | error other =>
    cases hfault
    exact Reader.arises_of_mem_program hstop hround

/-- The fault of reading an expression can come from the tokens that were left, unless it is that
some of them remain. -/
theorem arises_of_expression_error {parser : Parser} (hstop : parser.stop.isEnd = true)
    {fault : SyntaxFault} (h : parser.expression.1 = .error fault) :
    fault.Arises parser.stop parser.rest ∨ fault.cause = .expectedEnd := by
  have hread := Reader.expression_explains hstop parser.options.allowance parser.rest
  unfold expression at h
  split at h
  · rename_i refusal rest hrun
    cases h
    rw [hrun] at hread
    exact .inl hread
  · cases h
  · cases h
    exact .inr rfl

end Parser

end Lox
