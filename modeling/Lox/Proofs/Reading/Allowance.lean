import Lox.Proofs.Reading.Program

/-!
# A larger allowance

A larger allowance of nesting changes a reading only where it stopped because nesting was too deep.
Any other reading, whether something was accepted or refused, has never met the limit and stays as
it is.
-/

namespace Lox

/-- Reading stopped because nesting was too deep. -/
def Reading.TooDeep {α : Type} : Reading α → Prop
  | accepted _ _ => False
  | refused fault _ => fault.cause = .nestingTooDeep

namespace Reader

/-- The second way to read does the same as the first one, unless that finds nesting too deep. -/
def Deepens {α : Type} (run other : List Token → Reading α) : Prop :=
  ∀ tokens, ¬ (run tokens).TooDeep → other tokens = run tokens

/-- What the second way to read makes of tokens, for a reading of the first one that is known. -/
theorem Deepens.of_eq {α : Type} {run other : List Token → Reading α} (h : Deepens run other)
    {tokens : List Token} {reading : Reading α} (hrun : run tokens = reading)
    (hdeep : ¬ reading.TooDeep) : other tokens = reading := by
  rw [← hrun] at hdeep ⊢
  exact h tokens hdeep

section Expressions

variable {inner other : Reader Expr}

/-- Reading on after an operand deepens with its operands. -/
theorem chainFrom_deepens (h : Deepens inner.run other.run) (level : Level) (left : Expr) :
    Deepens (chainFrom level inner left) (chainFrom level other left) := by
  intro tokens hdeep
  fun_induction chainFrom level inner left tokens with
  | case1 left => rw [chainFrom]
  | case2 left token others hop right after hrun ih =>
    rw [chainFrom_step hop (h.of_eq hrun id)]
    exact ih hdeep
  | case3 left token others hop fault after hrun =>
    exact chainFrom_refused hop (h.of_eq hrun hdeep)
  | case4 left token others hop => rw [chainFrom, if_neg hop]

/-- A chain deepens with its operands. -/
theorem chain_deepens (h : Deepens inner.run other.run) (level : Level) :
    Deepens (chain level inner).run (chain level other).run := by
  intro tokens hdeep
  simp only [chain, chainRun] at hdeep ⊢
  cases hrun : inner.run tokens with
  | refused fault rest =>
    rw [hrun] at hdeep
    rw [h.of_eq hrun hdeep]
  | accepted left rest =>
    rw [hrun] at hdeep
    rw [h.of_eq hrun id]
    exact chainFrom_deepens h level left rest hdeep

/-- All levels of operators deepen with their operands. -/
theorem levels_deepens (h : Deepens inner.run other.run) :
    Deepens inner.levels.run other.levels.run :=
  chain_deepens (chain_deepens (chain_deepens (chain_deepens h .factor) .term) .comparison)
    .equality

/-- Whatever may be nested may be nested with a larger allowance too, and is read at least as deep
there. -/
def InnerDeepens (nested nested' : Option (Reader Expr)) : Prop :=
  ∀ inner ∈ nested, ∃ other ∈ nested', Deepens inner.run other.run

variable {nested nested' : Option (Reader Expr)} {stop : Token}

/-- What stands after a unary operator deepens with what may be nested. -/
theorem unaryRun_deepens (h : InnerDeepens nested nested') (operator : Token) :
    Deepens (unaryRun stop operator nested) (unaryRun stop operator nested') := by
  intro tokens hdeep
  cases nested with
  | none => exact absurd rfl hdeep
  | some inner =>
    obtain ⟨other, hother, hinner⟩ := h inner rfl
    cases hother
    simp only [unaryRun] at hdeep ⊢
    cases hrun : inner.run tokens with
    | accepted value rest => rw [hinner.of_eq hrun id]
    | refused fault rest =>
      rw [hrun] at hdeep
      rw [hinner.of_eq hrun hdeep]

/-- What stands after an opening parenthesis deepens with what may be nested. -/
theorem groupingRun_deepens (h : InnerDeepens nested nested') :
    Deepens (groupingRun stop nested) (groupingRun stop nested') := by
  intro tokens hdeep
  cases nested with
  | none => exact absurd rfl hdeep
  | some inner =>
    obtain ⟨other, hother, hinner⟩ := h inner rfl
    cases hother
    simp only [groupingRun] at hdeep ⊢
    cases hrun : inner.levels.run tokens with
    | accepted value rest => rw [(levels_deepens hinner).of_eq hrun id]
    | refused fault rest =>
      rw [hrun] at hdeep
      rw [(levels_deepens hinner).of_eq hrun hdeep]

/-- An operand deepens with what may be nested. -/
theorem operandRun_deepens (h : InnerDeepens nested nested') :
    Deepens (operandRun stop nested) (operandRun stop nested') := by
  intro tokens hdeep
  cases tokens with
  | nil => rfl
  | cons token rest =>
    rw [operandRun_cons] at hdeep
    rw [operandRun_cons, operandRun_cons]
    by_cases hunary : token.kind.isUnary = true
    · rw [if_pos hunary] at hdeep
      rw [if_pos hunary, if_pos hunary]
      exact unaryRun_deepens h token rest hdeep
    · rw [if_neg hunary] at hdeep
      rw [if_neg hunary, if_neg hunary]
      cases hvalue : token.value? with
      | some value => rfl
      | none =>
        rw [hvalue] at hdeep
        by_cases hparen : token.kind = .leftParen
        · have hname : token.kind ≠ .identifier := by simp [hparen]
          simp only [if_neg hname, if_pos hparen] at hdeep ⊢
          exact groupingRun_deepens h rest hdeep
        · simp only [if_neg hparen]

/-- The reader of operands deepens with the allowance. -/
theorem operand_deepens (stop : Token) {allowance larger : Nat} (hle : allowance ≤ larger) :
    Deepens (operand stop allowance).run (operand stop larger).run := by
  induction allowance generalizing larger with
  | zero =>
    intro tokens hdeep
    rw [operand_run] at hdeep
    rw [operand_run, operand_run]
    exact operandRun_deepens (fun inner hnone => by cases hnone) tokens hdeep
  | succ allowance ih =>
    obtain ⟨less, rfl⟩ := Nat.exists_eq_add_of_le' (Nat.le_trans (Nat.le_add_left 1 _) hle)
    refine operandRun_deepens fun inner hsome => ?_
    cases hsome
    exact ⟨operand stop less, rfl, ih (Nat.le_of_succ_le_succ hle)⟩

/-- The reader of expressions deepens with the allowance. -/
theorem expression_deepens (stop : Token) {allowance larger : Nat} (hle : allowance ≤ larger) :
    Deepens (expression stop allowance).run (expression stop larger).run :=
  levels_deepens (operand_deepens stop hle)

end Expressions

section Statements

variable {options deeper : ReadingOptions} {stop : Token}

/-- The other options allow at least as much nesting and are the same otherwise. -/
structure AllowsMore (options deeper : ReadingOptions) : Prop where
  /-- The allowance is not smaller. -/
  allowance_le : options.allowance ≤ deeper.allowance
  /-- Semicolons are treated alike. -/
  implicit_eq : deeper.implicitSemicolon = options.implicitSemicolon

/-- The end of a statement does not depend on the allowance. -/
theorem AllowsMore.endRun_eq (h : AllowsMore options deeper) (cause : Cause) (statement : Stmt)
    (tokens : List Token) :
    endRun deeper stop cause statement tokens = endRun options stop cause statement tokens := by
  cases tokens with
  | nil => simp only [endRun, h.implicit_eq]
  | cons token rest => rfl

/-- A statement made of an expression deepens with the allowance. -/
theorem valueRun_deepens (h : AllowsMore options deeper) (cause : Cause) (make : Expr → Stmt) :
    Deepens (valueRun options stop cause make) (valueRun deeper stop cause make) := by
  intro tokens hdeep
  have hvalue := expression_deepens stop h.allowance_le
  simp only [valueRun] at hdeep ⊢
  cases hrun : (expression stop options.allowance).run tokens with
  | accepted value rest =>
    rw [hvalue.of_eq hrun id]
    exact h.endRun_eq cause (make value) rest
  | refused fault rest =>
    rw [hrun] at hdeep
    rw [hvalue.of_eq hrun hdeep]

/-- What follows the name of a declaration deepens with the allowance. -/
theorem initializerRun_deepens (h : AllowsMore options deeper) (name : Token) :
    Deepens (initializerRun options stop name) (initializerRun deeper stop name) := by
  intro tokens hdeep
  cases tokens with
  | nil => exact h.endRun_eq _ _ []
  | cons token rest =>
    simp only [initializerRun] at hdeep ⊢
    by_cases hsign : token.kind = .equal
    · simp only [if_pos hsign] at hdeep ⊢
      exact valueRun_deepens h _ _ rest hdeep
    · simp only [if_neg hsign]
      exact h.endRun_eq _ _ (token :: rest)

/-- What follows the word that opens a declaration deepens with the allowance. -/
theorem declarationRun_deepens (h : AllowsMore options deeper) :
    Deepens (declarationRun options stop) (declarationRun deeper stop) := by
  intro tokens hdeep
  cases tokens with
  | nil => rfl
  | cons token rest =>
    simp only [declarationRun] at hdeep ⊢
    by_cases hname : token.kind = .identifier
    · simp only [if_pos hname] at hdeep ⊢
      exact initializerRun_deepens h token rest hdeep
    · simp only [if_neg hname]

/-- A statement deepens with the allowance. -/
theorem statementRun_deepens (h : AllowsMore options deeper) :
    Deepens (statementRun options stop) (statementRun deeper stop) := by
  intro tokens hdeep
  cases tokens with
  | nil => rfl
  | cons token rest =>
    simp only [statementRun] at hdeep ⊢
    by_cases hvar : token.kind = .keyword .varWord
    · simp only [if_pos hvar] at hdeep ⊢
      exact declarationRun_deepens h rest hdeep
    · simp only [if_neg hvar] at hdeep ⊢
      by_cases hprint : token.kind = .keyword .printWord
      · simp only [if_pos hprint] at hdeep ⊢
        exact valueRun_deepens h _ _ rest hdeep
      · simp only [if_neg hprint] at hdeep ⊢
        exact valueRun_deepens h _ _ (token :: rest) hdeep

end Statements

end Reader

end Lox
