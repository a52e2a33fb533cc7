import Lox.Proofs.Reading.Program

/-!
# Where reading stops

Reading stops at a token, or right behind a number or string that has no value. Everything before
that token is the front of something the grammar derives: each reader that stops has taken the front
of a derivation, and whoever called it has only a front to add before. Nesting does not matter for
that, as the grammar knows no allowance.
-/

namespace Lox

/-- The tokens are the front of a list of the language. -/
def Viable (language : List Token → Prop) (front : List Token) : Prop :=
  ∃ more, language (front ++ more)

/-- The token lists that a layer derives. -/
def Layer.Sentence (layer : Layer) (tokens : List Token) : Prop := ∃ tree, Derives layer tree tokens

/-- Every layer derives something. -/
theorem Layer.viable_nil (layer : Layer) : Viable layer.Sentence [] :=
  ⟨[Value.nil.token], _,
    (Derives.literal Value.nil.token_value?).loosen layer.precedence_le_primary⟩

/-- The token lists of statements without their semicolons. -/
def StatementSentence (tokens : List Token) : Prop := ∃ statement, DerivesStatement statement tokens

/-- The token lists of programs. -/
def ProgramSentence (implicit : Bool) (tokens : List Token) : Prop :=
  ∃ statements, DerivesProgram implicit statements tokens

/-- The token is a number or a string and stands for no value. -/
def Token.LacksValue (token : Token) : Prop :=
  (token.kind = .number ∨ token.kind = .string) ∧ token.value? = none

/-- Reading stopped with a fault whose token comes after the tokens `before`: it stands at that
token, or behind it if that is a literal without a value. -/
inductive StopsAfter (stop : Token) (tokens before : List Token) :
    SyntaxFault → List Token → Prop where
  /-- Reading stands at the token. -/
  | here {fault : SyntaxFault} {rest : List Token} (htokens : tokens = before ++ rest)
      (htoken : fault.token = peek stop rest) : StopsAfter stop tokens before fault rest
  /-- Reading has passed over the token. -/
  | behind {fault : SyntaxFault} {rest : List Token}
      (htokens : tokens = before ++ fault.token :: rest) (hlacks : fault.token.LacksValue) :
      StopsAfter stop tokens before fault rest

/-- Tokens that were taken before are added to those before the fault. -/
theorem StopsAfter.prepend {stop : Token} {tokens before rest : List Token} {fault : SyntaxFault}
    (h : StopsAfter stop tokens before fault rest) (taken : List Token) :
    StopsAfter stop (taken ++ tokens) (taken ++ before) fault rest := by
  cases h with
  | here htokens htoken => exact .here (by rw [htokens, List.append_assoc]) htoken
  | behind htokens hlacks => exact .behind (by rw [htokens, List.append_assoc]) hlacks

namespace Reader

/-- Wherever the way to read stops, the tokens before the fault are the front of a list of the
language, once the tokens `done` are put before them. -/
def Halts {α : Type} (stop : Token) (language : List Token → Prop) (done : List Token)
    (run : List Token → Reading α) : Prop :=
  ∀ tokens fault rest, run tokens = .refused fault rest →
    ∃ before, StopsAfter stop tokens before fault rest ∧ Viable language (done ++ before)

/-- A fault at the next token leaves the tokens before it as they are. -/
theorem halts_here {language : List Token → Prop} {stop : Token} {tokens done : List Token}
    {fault : SyntaxFault} (htoken : fault.token = peek stop tokens) (hdone : Viable language done) :
    ∃ before, StopsAfter stop tokens before fault tokens ∧ Viable language (done ++ before) :=
  ⟨[], .here rfl htoken, by rwa [List.append_nil]⟩

/-- After tokens that were taken, a fault stays where it is. -/
theorem halts_after {language : List Token → Prop} {stop : Token} {tokens done rest : List Token}
    {fault : SyntaxFault} (taken : List Token)
    (h : ∃ before, StopsAfter stop tokens before fault rest ∧
      Viable language (done ++ taken ++ before)) :
    ∃ before, StopsAfter stop (taken ++ tokens) before fault rest ∧
      Viable language (done ++ before) := by
  obtain ⟨before, hstops, hviable⟩ := h
  exact ⟨taken ++ before, hstops.prepend taken, by rwa [← List.append_assoc]⟩

section Expressions

variable {stop : Token} {level : Level} {inner : Reader Expr} {allowance : Nat}

/-- Reading on after an operand stops in a later operand, and everything up to there is the front of
a chain. -/
theorem chainFrom_halts (hsound : inner.Sound level.operand allowance)
    (hinner : Halts stop level.operand.Sentence [] inner.run) {left : Expr} {done : List Token}
    (hleft : Derives (.chain level) left done) :
    Halts stop (Layer.chain level).Sentence done (chainFrom level inner left) := by
  intro tokens fault rest h
  fun_induction chainFrom level inner left tokens generalizing done with
  | case1 left => cases h
  | case2 left token others hop right after hrun ih =>
    obtain ⟨middle, rfl, hright, -⟩ := hsound _ _ _ hrun
    have hlater := ih (Derives.chain hleft hop hright) h
    exact halts_after (token :: middle) hlater
  | case3 left token others hop other after hrun =>
    cases h
    obtain ⟨before, hstops, more, tree, htree⟩ := hinner _ _ _ hrun
    refine halts_after [token] ⟨before, hstops, more, .binary left token tree, ?_⟩
    rw [List.append_assoc, List.append_assoc]
    exact .chain hleft hop htree
  | case4 left token others hop => cases h

/-- A chain stops in one of its operands, and everything up to there is the front of a chain. -/
theorem chain_halts (hsound : inner.Sound level.operand allowance)
    (hinner : Halts stop level.operand.Sentence [] inner.run) :
    Halts stop (Layer.chain level).Sentence [] (chain level inner).run := by
  intro tokens fault rest h
  simp only [chain, chainRun] at h
  cases hrun : inner.run tokens with
  | refused other after =>
    rw [hrun] at h
    cases h
    obtain ⟨before, hstops, more, tree, htree⟩ := hinner _ _ _ hrun
    exact ⟨before, hstops, more, tree, .operand htree⟩
  | accepted left after =>
    rw [hrun] at h
    obtain ⟨taken, rfl, hleft, -⟩ := hsound _ _ _ hrun
    exact halts_after taken (chainFrom_halts hsound hinner (.operand hleft) _ _ _ h)

/-- An expression stops in one of its operands, and everything up to there is the front of an
expression. -/
theorem levels_halts (hsound : inner.Sound .unary allowance)
    (hinner : Halts stop Layer.unary.Sentence [] inner.run) :
    Halts stop Layer.expression.Sentence [] inner.levels.run := by
  have hfactor : (chain .factor inner).Sound (.chain .factor) allowance := chain_sound hsound
  have hterm : (chain .term (chain .factor inner)).Sound (.chain .term) allowance :=
    chain_sound hfactor
  have hfactorHalts : Halts stop (Layer.chain .factor).Sentence [] (chain .factor inner).run :=
    chain_halts hsound hinner
  have htermHalts : Halts stop (Layer.chain .term).Sentence []
      (chain .term (chain .factor inner)).run := chain_halts hfactor hfactorHalts
  exact chain_halts (chain_sound hterm) (chain_halts hterm htermHalts)

/-- The reader of what is nested, if there is one, accepts derivations and stops after the front of
one. -/
def InnerHalts (stop : Token) (nested : Option (Reader Expr)) : Prop :=
  ∀ reader ∈ nested, (∃ less, reader.Sound .unary less) ∧
    Halts stop Layer.unary.Sentence [] reader.run

variable {nested : Option (Reader Expr)}

/-- What stands after a unary operator stops in its operand. -/
theorem unaryRun_halts (hnested : InnerHalts stop nested) {operator : Token}
    (hoperator : operator.kind.isUnary = true) :
    Halts stop Layer.unary.Sentence [operator] (unaryRun stop operator nested) := by
  intro tokens fault rest h
  have hextend : ∀ front, Viable Layer.unary.Sentence front →
      Viable Layer.unary.Sentence (operator :: front) := by
    rintro front ⟨more, tree, htree⟩
    exact ⟨more, .unary operator tree, .unary hoperator htree⟩
  cases nested with
  | none =>
    cases h
    exact halts_here rfl (hextend [] (Layer.viable_nil .unary))
  | some reader =>
    simp only [unaryRun] at h
    cases hrun : reader.run tokens with
    | accepted value after =>
      rw [hrun] at h
      cases h
    | refused other after =>
      rw [hrun] at h
      cases h
      obtain ⟨before, hstops, hviable⟩ := (hnested reader rfl).2 _ _ _ hrun
      exact ⟨before, hstops, hextend before hviable⟩

/-- What stands after an opening parenthesis stops in its expression or at the token after it. -/
theorem groupingRun_halts (hnested : InnerHalts stop nested) {opening : Token}
    (hopening : opening.kind = .leftParen) :
    Halts stop Layer.unary.Sentence [opening] (groupingRun stop nested) := by
  intro tokens fault rest h
  have hextend : ∀ front, Viable Layer.expression.Sentence front →
      Viable Layer.unary.Sentence (opening :: front) := by
    rintro front ⟨more, tree, htree⟩
    have hclosing : (⟨.rightParen, [')'], .none, 1⟩ : Token).kind = .rightParen := rfl
    have hgrouping := (Derives.grouping hopening htree hclosing).primary
    rw [← List.cons_append, List.append_assoc] at hgrouping
    exact ⟨_, .grouping tree, hgrouping⟩
  cases nested with
  | none =>
    cases h
    exact halts_here rfl (hextend [] (Layer.viable_nil .expression))
  | some reader =>
    obtain ⟨⟨less, hsound⟩, hreader⟩ := hnested reader rfl
    simp only [groupingRun] at h
    cases hrun : reader.levels.run tokens with
    | refused other after =>
      rw [hrun] at h
      cases h
      obtain ⟨before, hstops, hviable⟩ := levels_halts hsound hreader _ _ _ hrun
      exact ⟨before, hstops, hextend before hviable⟩
    | accepted value after =>
      rw [hrun] at h
      obtain ⟨taken, rfl, hvalue, -⟩ := levels_sound hsound _ _ _ hrun
      have hclosed : Viable Layer.unary.Sentence ([opening] ++ taken) :=
        hextend taken ⟨[], value, by rwa [List.append_nil]⟩
      refine halts_after taken ?_
      cases after with
      | nil =>
        cases h
        exact halts_here rfl hclosed
      | cons token others =>
        simp only [closeRun] at h
        split at h
        · cases h
        · cases h
          exact halts_here rfl hclosed

/-- An operand stops at a token that begins none, behind a literal without a value, or inside. -/
theorem operandRun_halts (hnested : InnerHalts stop nested) :
    Halts stop Layer.unary.Sentence [] (operandRun stop nested) := by
  intro tokens fault rest h
  have hnil := Layer.viable_nil .unary
  cases tokens with
  | nil =>
    cases h
    exact halts_here rfl hnil
  | cons token others =>
    rw [operandRun_cons] at h
    split at h
    · rename_i hunary
      exact halts_after [token] (unaryRun_halts hnested hunary _ _ _ h)
    · split at h
      · cases h
      · rename_i hvalue
        split at h
        · cases h
        · split at h
          · rename_i hparen
            exact halts_after [token] (groupingRun_halts hnested hparen _ _ _ h)
          · by_cases hliteral : token.kind = .number ∨ token.kind = .string
            · rw [if_pos hliteral] at h
              cases h
              exact ⟨[], .behind rfl ⟨hliteral, hvalue⟩, hnil⟩
            · rw [if_neg hliteral] at h
              cases h
              exact halts_here rfl hnil

/-- The reader of operands stops after the front of an operand, at every allowance. -/
theorem operand_halts (stop : Token) (allowance : Nat) :
    Halts stop Layer.unary.Sentence [] (operand stop allowance).run := by
  induction allowance with
  | zero => exact operandRun_halts fun reader hnone => by cases hnone
  | succ allowance ih =>
    refine operandRun_halts fun reader hsome => ?_
    cases hsome
    exact ⟨⟨allowance, operand_sound stop allowance⟩, ih⟩

/-- The reader of expressions stops after the front of an expression, at every allowance. -/
theorem expression_halts (stop : Token) (allowance : Nat) :
    Halts stop Layer.expression.Sentence [] (expression stop allowance).run :=
  levels_halts (operand_sound stop allowance) (operand_halts stop allowance)

end Expressions

section Statements

variable {options : ReadingOptions} {stop : Token}

/-- A statement that is not closed stops at the token after it. -/
theorem endRun_halts (cause : Cause) {statement : Stmt} {done : List Token}
    (hdone : DerivesStatement statement done) :
    Halts stop StatementSentence done (endRun options stop cause statement) := by
  intro tokens fault rest h
  have hviable : Viable StatementSentence done := ⟨[], statement, by rwa [List.append_nil]⟩
  cases tokens with
  | nil =>
    simp only [endRun] at h
    split at h
    · cases h
    · cases h
      exact halts_here rfl hviable
  | cons token others =>
    simp only [endRun] at h
    split at h
    · cases h
    · cases h
      exact halts_here rfl hviable

/-- A statement made of an expression stops in the expression or at the token after it. -/
theorem valueRun_halts (cause : Cause) {make : Expr → Stmt} {done : List Token}
    (hmake : ∀ value tokens, Derives .expression value tokens →
      DerivesStatement (make value) (done ++ tokens)) :
    Halts stop StatementSentence done (valueRun options stop cause make) := by
  intro tokens fault rest h
  simp only [valueRun] at h
  cases hrun : (expression stop options.allowance).run tokens with
  | refused other after =>
    rw [hrun] at h
    cases h
    obtain ⟨before, hstops, more, value, hvalue⟩ := expression_halts stop _ _ _ _ hrun
    refine ⟨before, hstops, more, make value, ?_⟩
    rw [List.append_assoc]
    exact hmake value _ hvalue
  | accepted value after =>
    rw [hrun] at h
    obtain ⟨taken, rfl, hvalue, -⟩ := expression_sound stop _ _ _ _ hrun
    exact halts_after taken (endRun_halts cause (hmake value taken hvalue) _ _ _ h)

/-- What follows the name of a declaration stops in its expression or at the token after it. -/
theorem initializerRun_halts {word name : Token} (hword : word.kind = .keyword .varWord)
    (hname : name.kind = .identifier) :
    Halts stop StatementSentence [word, name] (initializerRun options stop name) := by
  intro tokens fault rest h
  have hdone : DerivesStatement (.declaration name none) [word, name] := .declaration hword hname
  cases tokens with
  | nil => exact endRun_halts _ hdone _ _ _ h
  | cons token others =>
    simp only [initializerRun] at h
    split at h
    · rename_i hsign
      refine halts_after [token] (valueRun_halts _ ?_ _ _ _ h)
      exact fun value tokens hvalue => .definition hword hname hsign hvalue
    · exact endRun_halts _ hdone _ _ _ h

/-- What follows the word that opens a declaration stops at another token than a name, or later. -/
theorem declarationRun_halts {word : Token} (hword : word.kind = .keyword .varWord) :
    Halts stop StatementSentence [word] (declarationRun options stop) := by
  intro tokens fault rest h
  have hname : (⟨.identifier, ['x'], .none, 1⟩ : Token).kind = .identifier := rfl
  have hviable : Viable StatementSentence [word] := ⟨_, _, .declaration hword hname⟩
  cases tokens with
  | nil =>
    cases h
    exact halts_here rfl hviable
  | cons token others =>
    simp only [declarationRun] at h
    split at h
    · rename_i hkind
      exact halts_after [token] (initializerRun_halts hword hkind _ _ _ h)
    · cases h
      exact halts_here rfl hviable

/-- A statement stops after the front of a statement. -/
theorem statementRun_halts (options : ReadingOptions) (stop : Token) :
    Halts stop StatementSentence [] (statementRun options stop) := by
  intro tokens fault rest h
  cases tokens with
  | nil =>
    cases h
    obtain ⟨more, value, hvalue⟩ := Layer.viable_nil .expression
    exact halts_here rfl ⟨more, .expression value, .expression hvalue⟩
  | cons token others =>
    simp only [statementRun] at h
    split at h
    · rename_i hword
      exact halts_after [token] (declarationRun_halts hword _ _ _ h)
    · split at h
      · rename_i hword
        refine halts_after [token] (valueRun_halts _ ?_ _ _ _ h)
        exact fun value tokens hvalue => .print hword hvalue
      · exact valueRun_halts _ (fun value tokens hvalue => .expression hvalue) _ _ _ h

end Statements

end Reader

end Lox
