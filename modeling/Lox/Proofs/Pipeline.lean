import Lox.Proofs.Evaluation.Safety
import Lox.Proofs.Reading.Refusal
import Lox.Proofs.Source.Tokenisation

/-!
# From the source to its values

Each stage of running a source relies on the one before. The literals of scanned tokens fit their
kinds, so no number and no string is refused as an expression; trees that were read are well-formed,
so evaluating them meets no unknown operator and no missing value.
-/

namespace Lox

/-- A number carries a double, a string a text and any other token nothing. -/
def Token.LiteralFits (token : Token) : Prop :=
  match token.kind with
  | .number => ∃ x, token.literal = .number x
  | .string => ∃ s, token.literal = .string s
  | _ => token.literal = .none

/-- A literal that a text stands for fits the kind of the text. -/
theorem Denotes.literalFits {token : Token}
    (h : Denotes token.kind token.lexeme token.literal) : token.LiteralFits := by
  unfold Token.LiteralFits
  generalize token.kind = kind at h
  generalize token.lexeme = text at h
  generalize token.literal = literal at h ⊢
  cases h with
  | string body => exact ⟨body, rfl⟩
  | number hnumeral hvalue => exact ⟨_, rfl⟩
  | none text hstring hnumber =>
    split
    · exact absurd rfl hnumber
    · exact absurd rfl hstring
    · rfl

/-- A number or string whose literal fits stands for a value. -/
theorem Token.LiteralFits.value?_isSome {token : Token} (h : token.LiteralFits)
    (hkind : token.kind = .number ∨ token.kind = .string) : token.value?.isSome := by
  unfold Token.LiteralFits at h
  rcases hkind with hkind | hkind <;> rw [hkind] at h <;> obtain ⟨datum, hdatum⟩ := h <;>
    simp [Token.value?, hkind, hdatum, Literal.value?]

/-- Where literals fit, an expression is missed only at a token that begins none. -/
theorem SyntaxFault.Arises.not_opensExpression {stop : Token} {tokens : List Token}
    {fault : SyntaxFault} (h : fault.Arises stop tokens)
    (hfits : ∀ token ∈ stop :: tokens, token.LiteralFits)
    (hcause : fault.cause = .expectedExpression) :
    fault.token.kind.opensExpression = false := by
  have hapt := h.apt
  unfold SyntaxFault.Apt at hapt
  rw [hcause] at hapt
  rcases hapt with hopens | ⟨hkind, hnone⟩
  · exact hopens
  · have hsome := (hfits fault.token h.named).value?_isSome hkind
    rw [hnone] at hsome
    cases hsome

/-- The operators of the levels are the binary operators. -/
theorem Level.mem_binaryOperators {level : Level} {kind : Kind} (h : level.has kind = true) :
    kind ∈ Kind.binaryOperators := by
  rw [Level.has_iff] at h
  cases kind <;> simp_all [Kind.level?, Kind.binaryOperators]

/-- The kinds that stand before an operand are the unary operators. -/
theorem Kind.mem_unaryOperators {kind : Kind} (h : kind.isUnary = true) :
    kind ∈ Kind.unaryOperators := by
  cases kind <;> simp_all [Kind.isUnary, Kind.unaryOperators]

/-- A tree of the shape that a layer derives is well-formed. -/
theorem Expr.Canonical.wellFormed {layer : Layer} {tree : Expr} (h : tree.Canonical layer) :
    tree.WellFormed := by
  induction tree generalizing layer with
  | literal value => exact h
  | grouping inner ih => exact ih h
  | reference name => exact h
  | unary operator operand ih =>
    obtain ⟨hlayer, hoperator, hoperand⟩ := h
    exact ⟨Kind.mem_unaryOperators hoperator, ih hoperand⟩
  | binary left operator right ihleft ihright =>
    obtain ⟨level, hlayer, hoperator, hleft, hright⟩ := h
    exact ⟨ihleft hleft, Level.mem_binaryOperators hoperator, ihright hright⟩

/-- A statement that some tokens derive is well-formed. -/
theorem DerivesStatement.wellFormed {statement : Stmt} {tokens : List Token}
    (h : DerivesStatement statement tokens) : statement.WellFormed := by
  intro tree htree
  cases h with
  | expression hvalue =>
    cases htree
    exact hvalue.canonical.wellFormed
  | print hword hvalue =>
    cases htree
    exact hvalue.canonical.wellFormed
  | declaration hword hname => cases htree
  | definition hword hname hsign hvalue =>
    cases htree
    exact hvalue.canonical.wellFormed

/-- The statements of a program that some tokens derive are well-formed. -/
theorem DerivesProgram.wellFormed {implicit : Bool} {statements : List Stmt}
    {tokens : List Token} (h : DerivesProgram implicit statements tokens) :
    ∀ statement ∈ statements, statement.WellFormed := by
  induction h with
  | empty => exact fun statement hmem => by cases hmem
  | closed hstatement hsemicolon hothers ih =>
    intro statement hmem
    rcases List.mem_cons.mp hmem with rfl | hmem
    · exact hstatement.wellFormed
    · exact ih statement hmem
  | unclosed himplicit hstatement =>
    intro statement hmem
    rw [List.mem_singleton.mp hmem]
    exact hstatement.wellFormed

namespace Parser

/-- An expression that was read is derived from the tokens of the parser. -/
theorem derives_of_expression {parser : Parser} {tree : Expr}
    (h : parser.expression.1 = .ok tree) : Derives .expression tree parser.rest := by
  rw [expression_eq_ok_iff, Reader.expression_run_eq_accepted_iff] at h
  exact h.1

/-- A program that was read without a fault is derived from the tokens of the parser. -/
theorem derives_of_program {parser : Parser} (h : parser.program.1.faults = []) :
    DerivesProgram parser.options.implicitSemicolon parser.program.1.statements parser.rest := by
  have hreading : parser.program.1 = ⟨parser.program.1.statements, []⟩ := by
    rw [← h]
  rw [program_eq_iff, Reader.program_eq_map_ok_iff] at hreading
  exact hreading.1

/-- An expression that was read is well-formed. -/
theorem wellFormed_of_expression {parser : Parser} {tree : Expr}
    (h : parser.expression.1 = .ok tree) : tree.WellFormed :=
  (derives_of_expression h).canonical.wellFormed

/-- The statements of a program that was read without a fault are well-formed. -/
theorem wellFormed_of_program {parser : Parser} (h : parser.program.1.faults = []) :
    ∀ statement ∈ parser.program.1.statements, statement.WellFormed :=
  (derives_of_program h).wellFormed

end Parser

namespace Scan

/-- The tokens of a source are closed by the one end of the source, and their literals fit. -/
theorem ofSource_closed (options : ReadingOptions) (source : Text) :
    ∃ parser, Parser.ofTokens options (ofSource source).tokens = .ok parser ∧
      (ofSource source).tokens = parser.rest ++ [parser.stop] ∧ parser.stop.isEnd = true ∧
      ∀ token ∈ parser.stop :: parser.rest, token.LiteralFits := by
  refine ⟨_, Parser.ofTokens_append_end options rfl fun _ => isEnd_of_mem, rfl, rfl, ?_⟩
  intro token hmem
  rcases List.mem_cons.mp hmem with rfl | hmem
  · rfl
  · exact (tokenClass_of_mem hmem).2.literalFits

/-- Running a source is safe, whatever the source, the options and the console. Its tokens make a
parser and their literals fit, so that reading refuses no number and no string as an expression.
What is read without a fault is well-formed. Evaluating it stores and yields only actual values and
fails only with a fault that a node of the tree can have, at the token of that node, or because the
console fails a write or cancels the program. -/
theorem ofSource_safe (source : Text) (options : ReadingOptions) :
    ∃ parser, Parser.ofTokens options (ofSource source).tokens = .ok parser ∧
      (ofSource source).tokens = parser.rest ++ [parser.stop] ∧ parser.stop.isEnd = true ∧
      (∀ token ∈ (ofSource source).tokens, token.LiteralFits) ∧
      (∀ fault, fault ∈ parser.program.1.faults ∨ parser.expression.1 = .error fault →
        fault.cause = .expectedExpression → fault.token.kind.opensExpression = false) ∧
      (∀ tree, parser.expression.1 = .ok tree →
        tree.WellFormed ∧
        ∀ console, (Execution.expression console tree).Safe console tree.possibleFaults
          (fun value => value.isSome)) ∧
      (parser.program.1.faults = [] →
        (∀ statement ∈ parser.program.1.statements, statement.WellFormed ∧
          ∀ environment console, environment.Holds → statement.SafeIn environment console) ∧
        ∀ console, (Execution.program console parser.program.1.statements).Safe console
          (parser.program.1.statements.flatMap Stmt.possibleFaults)
          (Execution.EndsWith [] parser.program.1.statements)) := by
  obtain ⟨parser, hparser, htokens, hstop, hfits⟩ := ofSource_closed options source
  refine ⟨parser, hparser, htokens, hstop, ?_, ?_, ?_, ?_⟩
  · intro token hmem
    rw [htokens, List.mem_append, List.mem_singleton] at hmem
    exact hfits token (List.mem_cons.mpr hmem.symm)
  · rintro fault (hmem | herror) hcause
    · exact (Parser.arises_of_mem_faults hstop hmem).not_opensExpression hfits hcause
    · rcases Parser.arises_of_expression_error hstop herror with harises | hend
      · exact harises.not_opensExpression hfits hcause
      · rw [hend] at hcause
        cases hcause
  · intro tree htree
    have hwell := Parser.wellFormed_of_expression htree
    exact ⟨hwell, Execution.expression_safe hwell⟩
  · intro hfaults
    have hwell := Parser.wellFormed_of_program hfaults
    refine ⟨fun statement hmem => ⟨hwell statement hmem, ?_⟩, Execution.program_safe hwell⟩
    exact fun environment console henv => (hwell statement hmem).safeIn henv console

end Scan

end Lox
