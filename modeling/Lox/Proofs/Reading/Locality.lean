import Lox.Proofs.Reading.Program

/-!
# How far a reader looks

A reader looks no further than one token past what it takes. So if it leaves a token of the front of
a list, it has not seen what follows that front: whatever stands there instead, and whatever end of
the source comes after it, the reading is the same and leaves the same part of the front.
-/

namespace Lox

/-- The same reading with other tokens left. -/
def Reading.leaving {α : Type} (rest : List Token) : Reading α → Reading α
  | accepted value _ => .accepted value rest
  | refused fault _ => .refused fault rest

namespace Reader

/-- Where the first way to read leaves a token of the front of a list, the second one does the same
with that front, whatever follows it. -/
def Local {α : Type} (run other : List Token → Reading α) : Prop :=
  ∀ seen after more left, left ≠ [] → (run (seen ++ after)).rest = left ++ after →
    other (seen ++ more) = (run (seen ++ after)).leaving (left ++ more)

/-- What the second way to read makes of the front, for a reading of the first one that is known. -/
theorem Local.of_eq {α : Type} {run other : List Token → Reading α} (h : Local run other)
    {seen after left : List Token} {reading : Reading α} (hrun : run (seen ++ after) = reading)
    (hleft : left ≠ []) (hrest : reading.rest = left ++ after) (more : List Token) :
    other (seen ++ more) = reading.leaving (left ++ more) := by
  rw [← hrun] at hrest ⊢
  exact h seen after more left hleft hrest

/-- Where the first way to read leaves off at a token, so does the second one, whatever follows that
token. -/
theorem Local.at_token {α : Type} {run other : List Token → Reading α} (h : Local run other)
    {before after : List Token} {token : Token} {reading : Reading α}
    (hrun : run (before ++ token :: after) = reading) (hrest : reading.rest = token :: after)
    (more : List Token) : other (before ++ token :: more) = reading.leaving (token :: more) := by
  rw [List.append_cons] at hrun ⊢
  exact h.of_eq hrun (List.cons_ne_nil token []) hrest more

section Fronts

variable {α : Type} {token : Token} {rest seen after left : List Token}

/-- Tokens whose end leaves a part of the front leave one themselves. -/
theorem exists_kept (hleft : left ≠ []) (h : left ++ after <:+ rest) :
    ∃ kept, kept ≠ [] ∧ rest = kept ++ after := by
  obtain ⟨taken, rfl⟩ := h
  exact ⟨taken ++ left, by simp [hleft], by simp⟩

/-- A token that is taken belongs to the front if something of the front is left after it. -/
theorem seen_eq_cons (htokens : seen ++ after = token :: rest) (h : left ++ after <:+ rest) :
    ∃ others, seen = token :: others ∧ rest = others ++ after := by
  cases seen with
  | nil =>
    have hlength := h.length_le
    rw [List.nil_append] at htokens
    rw [htokens, List.length_append, List.length_cons] at hlength
    omega
  | cons first others =>
    obtain ⟨rfl, rfl⟩ := List.cons.inj htokens
    exact ⟨others, rfl, rfl⟩

/-- A front of which something is left has a first token. -/
theorem exists_seen_cons {reading : Reading α} (hsuffix : reading.rest <:+ seen ++ after)
    (hleft : left ≠ []) (hrest : reading.rest = left ++ after) :
    ∃ token others, seen = token :: others := by
  rw [hrest] at hsuffix
  obtain ⟨kept, hkept, htokens⟩ := exists_kept hleft hsuffix
  rw [List.append_cancel_right htokens]
  exact List.exists_cons_of_ne_nil hkept

end Fronts

section Steps

variable {α : Type}

/-- What is accepted without a look at the tokens is accepted whatever they are. -/
theorem accepted_local (value : α) : Local (.accepted value) (.accepted value) := by
  intro seen after more left hleft hrest
  have hwhole : seen ++ after = left ++ after := hrest
  rw [List.append_cancel_right hwhole]
  rfl

/-- What is refused without a look at the tokens is refused whatever they are. -/
theorem refused_local (fault : SyntaxFault) :
    Local (.refused fault : List Token → Reading α) (.refused fault) := by
  intro seen after more left hleft hrest
  have hwhole : seen ++ after = left ++ after := hrest
  rw [List.append_cancel_right hwhole]
  rfl

/-- Nesting that is too deep is found at the next token. -/
theorem tooDeep_local (stop stop' : Token) :
    Local (fun tokens => (.refused ⟨peek stop tokens, .nestingTooDeep⟩ tokens : Reading α))
      (fun tokens => .refused ⟨peek stop' tokens, .nestingTooDeep⟩ tokens) := by
  intro seen after more left hleft hrest
  have hwhole : seen ++ after = left ++ after := hrest
  obtain rfl := List.append_cancel_right hwhole
  obtain ⟨first, others, rfl⟩ := List.exists_cons_of_ne_nil hleft
  rfl

end Steps

section Expressions

variable {inner other : Reader Expr}

/-- Reading on after an operand looks no further than its operands do. -/
theorem chainFrom_local (h : Local inner.run other.run) (level : Level) (value : Expr) :
    Local (chainFrom level inner value) (chainFrom level other value) := by
  intro seen after more left hleft hrest
  generalize htokens : seen ++ after = tokens at hrest ⊢
  fun_induction chainFrom level inner value tokens generalizing seen with
  | case1 value =>
    have hnil : left ++ after = [] := hrest.symm
    exact absurd (List.append_eq_nil_iff.mp hnil).1 hleft
  | case2 value token rest hop right rest' hrun ih =>
    have hsuffix := chainFrom_rest_suffix level inner (.binary value token right) rest'
    rw [hrest] at hsuffix
    obtain ⟨kept, hkept, rfl⟩ := exists_kept hleft hsuffix
    have hadv := inner.advances rest
    rw [hrun] at hadv
    obtain ⟨others, rfl, rfl⟩ := seen_eq_cons htokens hadv.1
    have hother := h.of_eq hrun hkept rfl more
    rw [List.cons_append, chainFrom_step hop hother]
    exact ih kept rfl hrest
  | case3 value token rest hop fault rest' hrun =>
    have hkept : rest' = left ++ after := hrest
    have hadv := inner.advances rest
    rw [hrun, hkept] at hadv
    obtain ⟨others, rfl, rfl⟩ := seen_eq_cons htokens hadv
    have hother := h.of_eq hrun hleft hkept more
    rw [List.cons_append]
    exact chainFrom_refused hop hother
  | case4 value token rest hop =>
    have hwhole : seen ++ after = left ++ after := htokens.trans hrest
    obtain rfl := List.append_cancel_right hwhole
    obtain ⟨first, others, rfl⟩ := List.exists_cons_of_ne_nil hleft
    obtain ⟨rfl, -⟩ := List.cons.inj htokens
    rw [List.cons_append, chainFrom, if_neg hop]
    rfl

/-- A chain looks no further than its operands do. -/
theorem chain_local (h : Local inner.run other.run) (level : Level) :
    Local (chain level inner).run (chain level other).run := by
  intro seen after more left hleft hrest
  simp only [chain, chainRun] at hrest ⊢
  cases hrun : inner.run (seen ++ after) with
  | refused fault rest =>
    rw [hrun] at hrest
    rw [h.of_eq hrun hleft hrest more]
    rfl
  | accepted value rest =>
    rw [hrun] at hrest
    have hsuffix := chainFrom_rest_suffix level inner value rest
    rw [hrest] at hsuffix
    obtain ⟨kept, hkept, rfl⟩ := exists_kept hleft hsuffix
    rw [h.of_eq hrun hkept rfl more]
    exact chainFrom_local h level value kept after more left hleft hrest

/-- All levels of operators look no further than their operands do. -/
theorem levels_local (h : Local inner.run other.run) : Local inner.levels.run other.levels.run :=
  chain_local (chain_local (chain_local (chain_local h .factor) .term) .comparison) .equality

variable {nested nested' : Option (Reader Expr)} {stop stop' : Token}

/-- What stands after a unary operator is read without looking further than its operand. -/
theorem unaryRun_local
    (h : Option.Rel (fun inner other => Local inner.run other.run) nested nested')
    (operator : Token) :
    Local (unaryRun stop operator nested) (unaryRun stop' operator nested') := by
  cases h with
  | none => exact tooDeep_local stop stop'
  | @some inner other h =>
    intro seen after more left hleft hrest
    simp only [unaryRun] at hrest ⊢
    cases hrun : inner.run (seen ++ after) with
    | accepted value rest =>
      rw [hrun] at hrest
      rw [h.of_eq hrun hleft hrest more]
      rfl
    | refused fault rest =>
      rw [hrun] at hrest
      rw [h.of_eq hrun hleft hrest more]
      rfl

/-- A closing parenthesis is looked for in one token. -/
theorem closeRun_local (value : Expr) : Local (closeRun stop value) (closeRun stop' value) := by
  intro seen after more left hleft hrest
  have hsuffix := rest_suffix_of_advances (closeRun_advances stop value (seen ++ after))
  obtain ⟨token, others, rfl⟩ := exists_seen_cons hsuffix hleft hrest
  simp only [List.cons_append, closeRun] at hrest ⊢
  by_cases hkind : token.kind = .rightParen
  · simp only [if_pos hkind] at hrest ⊢
    exact accepted_local _ others after more left hleft hrest
  · simp only [if_neg hkind] at hrest ⊢
    exact refused_local _ (token :: others) after more left hleft hrest

/-- What stands after an opening parenthesis is read without looking further than the closing
one. -/
theorem groupingRun_local
    (h : Option.Rel (fun inner other => Local inner.run other.run) nested nested') :
    Local (groupingRun stop nested) (groupingRun stop' nested') := by
  cases h with
  | none => exact tooDeep_local stop stop'
  | @some inner other h =>
    intro seen after more left hleft hrest
    simp only [groupingRun] at hrest ⊢
    cases hrun : inner.levels.run (seen ++ after) with
    | accepted value rest =>
      rw [hrun] at hrest
      have hsuffix := rest_suffix_of_advances (closeRun_advances stop value rest)
      rw [hrest] at hsuffix
      obtain ⟨kept, hkept, rfl⟩ := exists_kept hleft hsuffix
      rw [(levels_local h).of_eq hrun hkept rfl more]
      exact closeRun_local value kept after more left hleft hrest
    | refused fault rest =>
      rw [hrun] at hrest
      rw [(levels_local h).of_eq hrun hleft hrest more]
      rfl

/-- An operand looks no further than what is nested in it. -/
theorem operandRun_local
    (h : Option.Rel (fun inner other => Local inner.run other.run) nested nested') :
    Local (operandRun stop nested) (operandRun stop' nested') := by
  intro seen after more left hleft hrest
  have hsuffix := rest_suffix_of_advances (operandRun_advances stop nested (seen ++ after))
  obtain ⟨token, others, rfl⟩ := exists_seen_cons hsuffix hleft hrest
  simp only [List.cons_append, operandRun_cons] at hrest ⊢
  by_cases hunary : token.kind.isUnary = true
  · simp only [if_pos hunary] at hrest ⊢
    exact unaryRun_local h token others after more left hleft hrest
  · simp only [if_neg hunary] at hrest ⊢
    cases hvalue : token.value? with
    | some value =>
      rw [hvalue] at hrest
      exact accepted_local _ others after more left hleft hrest
    | none =>
      rw [hvalue] at hrest
      by_cases hname : token.kind = .identifier
      · simp only [if_pos hname] at hrest ⊢
        exact accepted_local _ others after more left hleft hrest
      · simp only [if_neg hname] at hrest ⊢
        by_cases hparen : token.kind = .leftParen
        · simp only [if_pos hparen] at hrest ⊢
          exact groupingRun_local h others after more left hleft hrest
        · simp only [if_neg hparen] at hrest ⊢
          by_cases hliteral : token.kind = .number ∨ token.kind = .string
          · simp only [if_pos hliteral] at hrest ⊢
            exact refused_local _ others after more left hleft hrest
          · simp only [if_neg hliteral] at hrest ⊢
            exact refused_local _ (token :: others) after more left hleft hrest

/-- The readers of operands of one allowance look no further than they say, whatever the end of the
source is. -/
theorem operand_local (stop stop' : Token) (allowance : Nat) :
    Local (operand stop allowance).run (operand stop' allowance).run := by
  induction allowance with
  | zero => exact operandRun_local .none
  | succ allowance ih => exact operandRun_local (.some ih)

/-- The readers of expressions of one allowance look no further than they say. -/
theorem expression_local (stop stop' : Token) (allowance : Nat) :
    Local (expression stop allowance).run (expression stop' allowance).run :=
  levels_local (operand_local stop stop' allowance)

end Expressions

section Statements

variable {options : ReadingOptions} {stop stop' : Token}

/-- The end of a statement is looked for in one token. -/
theorem endRun_local (cause : Cause) (statement : Stmt) :
    Local (endRun options stop cause statement) (endRun options stop' cause statement) := by
  intro seen after more left hleft hrest
  have hsuffix := endRun_rest_suffix options stop cause statement (seen ++ after)
  obtain ⟨token, others, rfl⟩ := exists_seen_cons hsuffix hleft hrest
  simp only [List.cons_append, endRun] at hrest ⊢
  by_cases hkind : token.kind = .semicolon
  · simp only [if_pos hkind] at hrest ⊢
    exact accepted_local _ others after more left hleft hrest
  · simp only [if_neg hkind] at hrest ⊢
    exact refused_local _ (token :: others) after more left hleft hrest

/-- A statement made of an expression looks no further than its end. -/
theorem valueRun_local (cause : Cause) (make : Expr → Stmt) :
    Local (valueRun options stop cause make) (valueRun options stop' cause make) := by
  intro seen after more left hleft hrest
  have hlocal := expression_local stop stop' options.allowance
  simp only [valueRun] at hrest ⊢
  cases hrun : (expression stop options.allowance).run (seen ++ after) with
  | accepted value rest =>
    rw [hrun] at hrest
    have hsuffix := endRun_rest_suffix options stop cause (make value) rest
    rw [hrest] at hsuffix
    obtain ⟨kept, hkept, rfl⟩ := exists_kept hleft hsuffix
    rw [hlocal.of_eq hrun hkept rfl more]
    exact endRun_local cause (make value) kept after more left hleft hrest
  | refused fault rest =>
    rw [hrun] at hrest
    rw [hlocal.of_eq hrun hleft hrest more]
    rfl

/-- What follows the name of a declaration is read without looking further than its end. -/
theorem initializerRun_local (name : Token) :
    Local (initializerRun options stop name) (initializerRun options stop' name) := by
  intro seen after more left hleft hrest
  have hsuffix := initializerRun_rest_suffix options stop name (seen ++ after)
  obtain ⟨token, others, rfl⟩ := exists_seen_cons hsuffix hleft hrest
  simp only [List.cons_append, initializerRun] at hrest ⊢
  by_cases hkind : token.kind = .equal
  · simp only [if_pos hkind] at hrest ⊢
    exact valueRun_local _ _ others after more left hleft hrest
  · simp only [if_neg hkind] at hrest ⊢
    exact endRun_local _ _ (token :: others) after more left hleft hrest

/-- What follows the word that opens a declaration is read without looking further than its end. -/
theorem declarationRun_local :
    Local (declarationRun options stop) (declarationRun options stop') := by
  intro seen after more left hleft hrest
  have hsuffix := declarationRun_rest_suffix options stop (seen ++ after)
  obtain ⟨token, others, rfl⟩ := exists_seen_cons hsuffix hleft hrest
  simp only [List.cons_append, declarationRun] at hrest ⊢
  by_cases hkind : token.kind = .identifier
  · simp only [if_pos hkind] at hrest ⊢
    exact initializerRun_local token others after more left hleft hrest
  · simp only [if_neg hkind] at hrest ⊢
    exact refused_local _ (token :: others) after more left hleft hrest

/-- A statement looks no further than its end. -/
theorem statementRun_local (options : ReadingOptions) (stop stop' : Token) :
    Local (statementRun options stop) (statementRun options stop') := by
  intro seen after more left hleft hrest
  have hsuffix := rest_suffix_of_advances (statementRun_advances options stop (seen ++ after))
  obtain ⟨token, others, rfl⟩ := exists_seen_cons hsuffix hleft hrest
  simp only [List.cons_append, statementRun] at hrest ⊢
  by_cases hvar : token.kind = .keyword .varWord
  · simp only [if_pos hvar] at hrest ⊢
    exact declarationRun_local others after more left hleft hrest
  · simp only [if_neg hvar] at hrest ⊢
    by_cases hprint : token.kind = .keyword .printWord
    · simp only [if_pos hprint] at hrest ⊢
      exact valueRun_local _ _ others after more left hleft hrest
    · simp only [if_neg hprint] at hrest ⊢
      exact valueRun_local _ _ (token :: others) after more left hleft hrest

end Statements

end Reader

end Lox
