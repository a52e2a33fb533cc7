import Lox.Proofs.Reading.Allowance
import Lox.Proofs.Reading.Recovery

/-!
# The first fault

The first fault is at the first token that nothing derived by the grammar can have there. The tokens
before it are the front of a sentence, since every reader stops after one. With it they are not: a
reader that stops at a token has looked no further, so it stops there whatever follows, and with a
larger allowance too; but a large enough allowance reads every sentence.
-/

namespace Lox

/-- A token of another kind than a number or a string lacks no value. -/
theorem Token.not_lacksValue {token : Token} {kind : Kind} (hkind : token.kind = kind)
    (hother : kind ≠ .number ∧ kind ≠ .string) : ¬ token.LacksValue := by
  rintro ⟨hliteral, -⟩
  rw [hkind] at hliteral
  exact hliteral.elim hother.1 hother.2

/-- Every number or string in an expression has a value. -/
theorem Derives.not_lacksValue {layer : Layer} {tree : Expr} {tokens : List Token}
    (h : Derives layer tree tokens) : ∀ token ∈ tokens, ¬ token.LacksValue := by
  induction h with
  | literal hvalue =>
    rw [List.forall_mem_singleton]
    rintro ⟨-, hnone⟩
    rw [hvalue] at hnone
    cases hnone
  | reference hname =>
    rw [List.forall_mem_singleton]
    exact Token.not_lacksValue hname (by decide)
  | grouping hopening hinner hclosing ih =>
    rw [List.cons_append, List.forall_mem_cons, List.forall_mem_append, List.forall_mem_singleton]
    exact ⟨Token.not_lacksValue hopening (by decide), ih,
      Token.not_lacksValue hclosing (by decide)⟩
  | primary h ih => exact ih
  | unary hoperator hoperand ih =>
    rw [List.forall_mem_cons]
    refine ⟨Token.not_lacksValue rfl ⟨?_, ?_⟩, ih⟩ <;> intro hkind <;> rw [hkind] at hoperator <;>
      cases hoperator
  | operand h ih => exact ih
  | chain hleft hoperator hright ihleft ihright =>
    rw [List.forall_mem_append, List.forall_mem_cons]
    rw [Level.has_iff] at hoperator
    refine ⟨ihleft, Token.not_lacksValue rfl ⟨?_, ?_⟩, ihright⟩ <;> intro hkind <;>
      rw [hkind] at hoperator <;> cases hoperator

/-- Every number or string in a statement has a value. -/
theorem DerivesStatement.not_lacksValue {statement : Stmt} {tokens : List Token}
    (h : DerivesStatement statement tokens) : ∀ token ∈ tokens, ¬ token.LacksValue := by
  cases h with
  | expression hvalue => exact hvalue.not_lacksValue
  | print hword hvalue =>
    rw [List.forall_mem_cons]
    exact ⟨Token.not_lacksValue hword (by decide), hvalue.not_lacksValue⟩
  | declaration hword hname =>
    rw [List.forall_mem_cons, List.forall_mem_singleton]
    exact ⟨Token.not_lacksValue hword (by decide), Token.not_lacksValue hname (by decide)⟩
  | definition hword hname hsign hvalue =>
    rw [List.forall_mem_cons, List.forall_mem_cons, List.forall_mem_cons]
    exact ⟨Token.not_lacksValue hword (by decide), Token.not_lacksValue hname (by decide),
      Token.not_lacksValue hsign (by decide), hvalue.not_lacksValue⟩

namespace DerivesProgram

variable {implicit : Bool} {statements others : List Stmt} {tokens more : List Token}

/-- Every number or string in a program has a value. -/
theorem not_lacksValue (h : DerivesProgram implicit statements tokens) :
    ∀ token ∈ tokens, ¬ token.LacksValue := by
  induction h with
  | empty => exact fun token hmem => absurd hmem List.not_mem_nil
  | closed hstatement hsemicolon hothers ih =>
    rw [List.forall_mem_append, List.forall_mem_cons]
    exact ⟨hstatement.not_lacksValue, Token.not_lacksValue hsemicolon (by decide), ih⟩
  | unclosed himplicit hstatement => exact hstatement.not_lacksValue

/-- A program that spells out all semicolons ends with one, unless it is empty. -/
theorem endsClosed (h : DerivesProgram false statements tokens) : EndsClosed tokens := by
  induction h with
  | empty => exact fun token hmem => by cases hmem
  | @closed statement statements tokens others semicolon hstatement hsemicolon hothers ih =>
    intro token hmem
    rw [List.getLast?_append, List.getLast?_cons] at hmem
    cases hlast : others.getLast? with
    | none =>
      rw [hlast] at hmem
      cases hmem
      exact hsemicolon
    | some last =>
      rw [hlast] at hmem
      cases hmem
      exact ih last hlast
  | unclosed himplicit hstatement => cases himplicit

/-- A program may be put after one that spells out all semicolons. -/
theorem append (h : DerivesProgram false statements tokens)
    (hmore : DerivesProgram implicit others more) :
    DerivesProgram implicit (statements ++ others) (tokens ++ more) := by
  induction h with
  | empty => exact hmore
  | closed hstatement hsemicolon hothers ih =>
    rw [List.append_assoc, List.cons_append]
    exact .closed hstatement hsemicolon ih
  | unclosed himplicit hstatement => cases himplicit

end DerivesProgram

/-- The token is the first one of the source that the language cannot have there: the tokens before
it are the front of a list of the language, and with it they are not. The end of the source is that
token if the whole source is the front of such a list without being one. -/
structure Blocks (language : List Token → Prop) (stop : Token) (tokens before : List Token)
    (token : Token) : Prop where
  /-- Something goes on after the tokens before the fault. -/
  viable : Viable language before
  /-- Nothing goes on with the token of the fault. -/
  next : (∃ after, tokens = before ++ token :: after ∧ ¬ Viable language (before ++ [token])) ∨
    (tokens = before ∧ token = stop ∧ ¬ language tokens)

/-- Where a way to read stops that looks no further than the next token, the token of the fault
blocks the language, provided that nothing refused with this fault is of the language. A number or
string without a value blocks any language of tokens that have one. -/
theorem Blocks.of_refused {α : Type} {run : List Token → Reading α} {language : List Token → Prop}
    {stop : Token} {tokens done before rest : List Token} {fault : SyntaxFault}
    (hlocal : Reader.Local run run) (hrun : run tokens = .refused fault rest)
    (hstops : StopsAfter stop tokens before fault rest) (hviable : Viable language (done ++ before))
    (hvalues : ∀ sentence, language sentence → ∀ token ∈ sentence, ¬ token.LacksValue)
    (hrefuses : ∀ others left, others ≠ [] → run others = .refused fault left →
      ¬ language (done ++ others))
    (hend : ¬ language (done ++ tokens)) :
    Blocks language stop (done ++ tokens) (done ++ before) fault.token := by
  refine ⟨hviable, ?_⟩
  cases hstops with
  | here htokens htoken =>
    cases rest with
    | nil =>
      rw [List.append_nil] at htokens
      exact .inr ⟨by rw [htokens], htoken, hend⟩
    | cons token after =>
      rw [htoken]
      refine .inl ⟨after, by rw [htokens, List.append_assoc]; rfl, ?_⟩
      rintro ⟨more, hsentence⟩
      rw [htokens] at hrun
      have hother : run (before ++ token :: more) = .refused fault (token :: more) :=
        hlocal.at_token hrun rfl more
      refine hrefuses _ _ (by simp) hother ?_
      rwa [List.append_cons, ← List.append_assoc, ← List.append_assoc]
  | behind htokens hlacks =>
    refine .inl ⟨rest, by rw [htokens, List.append_assoc], ?_⟩
    rintro ⟨more, hsentence⟩
    exact hvalues _ hsentence fault.token (by simp) hlacks

namespace Reader

section Expressions

variable {stop : Token} {allowance : Nat}

/-- Tokens that are not all read are no expression, unless nesting was too deep. -/
theorem not_expressionSentence {tokens : List Token} {reading : Reading Expr}
    (hrun : (expression stop allowance).run tokens = reading) (hdeep : ¬ reading.TooDeep)
    (hleft : ∀ tree, reading ≠ .accepted tree []) : ¬ Layer.expression.Sentence tokens := by
  rintro ⟨tree, htree⟩
  have haccepted := (expression_run_eq_accepted_iff stop (max allowance tree.nesting) tokens
    tree).mpr ⟨htree, Nat.le_max_right _ _⟩
  have hlarger := expression_deepens stop (Nat.le_max_left allowance tree.nesting)
  have hdeeper := hlarger.of_eq hrun hdeep
  exact hleft tree (hdeeper.symm.trans haccepted)

/-- A fault in an expression is at the token that blocks it. -/
theorem expression_refused_blocks {tokens rest : List Token} {fault : SyntaxFault}
    (hrun : (expression stop allowance).run tokens = .refused fault rest)
    (hdeep : fault.cause ≠ .nestingTooDeep) :
    ∃ before, StopsAfter stop tokens before fault rest ∧
      Blocks Layer.expression.Sentence stop tokens before fault.token := by
  have hrefuses : ∀ others left, (expression stop allowance).run others = .refused fault left →
      ¬ Layer.expression.Sentence others := by
    intro others left hother
    exact not_expressionSentence hother hdeep fun tree hnone => by cases hnone
  obtain ⟨before, hstops, hviable⟩ := expression_halts stop allowance _ _ _ hrun
  refine ⟨before, hstops, Blocks.of_refused (expression_local stop stop allowance) hrun hstops
    hviable ?_ (fun others left _ => hrefuses others left) (hrefuses tokens rest hrun)⟩
  rintro sentence ⟨tree, htree⟩
  exact htree.not_lacksValue

/-- The token after an expression that goes no further blocks it. -/
theorem expression_accepted_blocks {tree : Expr} {tokens after : List Token} {token : Token}
    (hrun : (expression stop allowance).run tokens = .accepted tree (token :: after)) :
    ∃ before, tokens = before ++ token :: after ∧
      Blocks Layer.expression.Sentence stop tokens before token := by
  obtain ⟨before, htokens, htree, -⟩ := expression_sound stop allowance _ _ _ hrun
  refine ⟨before, htokens, ⟨[], tree, by rwa [List.append_nil]⟩, .inl ⟨after, htokens, ?_⟩⟩
  rintro ⟨more, hsentence⟩
  rw [htokens] at hrun
  rw [← List.append_cons] at hsentence
  have hother : (expression stop allowance).run (before ++ token :: more) =
      .accepted tree (token :: more) :=
    (expression_local stop stop allowance).at_token hrun rfl more
  exact not_expressionSentence hother id (fun other hall => by cases hall) hsentence

end Expressions

section Programs

variable {options : ReadingOptions} {stop : Token}

/-- Before the first fault of a program there are statements with all their semicolons, and after
them a statement is refused. -/
theorem program_first_fault {tokens : List Token} {fault : SyntaxFault}
    (h : ((program options stop tokens).filterMap fault?).head? = some fault) :
    ∃ statements done others rest, tokens = done ++ others ∧ others ≠ [] ∧
      DerivesProgram false statements done ∧
      statementRun options stop others = .refused fault rest := by
  fun_induction program options stop tokens with
  | case1 => cases h
  | case2 token left statement after hrun ih =>
    obtain ⟨statements, done, others, rest, hafter, hne, hdone, hrefused⟩ := ih h
    obtain ⟨taken, ending, htaken, hstatement, -, hends⟩ := statementRun_sound hrun
    rcases hends with ⟨semicolon, hkind, rfl⟩ | ⟨-, -, rfl⟩
    · refine ⟨statement :: statements, taken ++ semicolon :: done, others, rest, ?_, hne,
        .closed hstatement hkind hdone, hrefused⟩
      rw [htaken, hafter, List.append_assoc, List.cons_append]
    · exact absurd (List.append_eq_nil_iff.mp hafter.symm).2 hne
  | case3 token left other after hrun ih =>
    cases h
    exact ⟨[], [], token :: left, after, rfl, List.cons_ne_nil token left, .empty, hrun⟩

/-- Some allowance is enough for all statements of a list. -/
theorem exists_allowance (least : Nat) (statements : List Stmt) :
    ∃ larger, least ≤ larger ∧ ∀ statement ∈ statements, statement.nesting ≤ larger := by
  induction statements with
  | nil => exact ⟨least, Nat.le_refl least, fun statement hmem => absurd hmem List.not_mem_nil⟩
  | cons first statements ih =>
    obtain ⟨larger, hle, hall⟩ := ih
    refine ⟨max first.nesting larger, Nat.le_trans hle (Nat.le_max_right _ _), ?_⟩
    rw [List.forall_mem_cons]
    exact ⟨Nat.le_max_left _ _, fun statement hmem =>
      Nat.le_trans (hall statement hmem) (Nat.le_max_right _ _)⟩

/-- Where a statement is refused after others with all their semicolons, the tokens are no program,
unless nesting was too deep. -/
theorem not_programSentence {statements : List Stmt} {done others rest : List Token}
    {fault : SyntaxFault} (hdone : DerivesProgram false statements done) (hne : others ≠ [])
    (hdeep : fault.cause ≠ .nestingTooDeep)
    (hrun : statementRun options stop others = .refused fault rest) :
    ¬ ProgramSentence options.implicitSemicolon (done ++ others) := by
  rintro ⟨whole, hwhole⟩
  obtain ⟨larger, hle, hnesting⟩ := exists_allowance options.allowance whole
  have hmore : AllowsMore options ⟨larger, options.implicitSemicolon⟩ := ⟨hle, rfl⟩
  have hrefused := (statementRun_deepens hmore).of_eq hrun hdeep
  have hall : program ⟨larger, options.implicitSemicolon⟩ stop (done ++ others) =
      whole.map .ok := program_of_derives hwhole hnesting
  obtain ⟨token, left, rfl⟩ := List.exists_cons_of_ne_nil hne
  rw [program_append _ stop stop hdone.endsClosed, program_refused hrefused] at hall
  have hmem : Except.error fault ∈ whole.map (Except.ok : Stmt → Except SyntaxFault Stmt) := by
    rw [← hall]
    exact List.mem_append_right _ List.mem_cons_self
  obtain ⟨statement, -, hok⟩ := List.mem_map.mp hmem
  cases hok

/-- The first fault of a program is at the token that blocks it. -/
theorem program_first_fault_blocks {tokens : List Token} {fault : SyntaxFault}
    (h : ((program options stop tokens).filterMap fault?).head? = some fault)
    (hdeep : fault.cause ≠ .nestingTooDeep) :
    ∃ before, Blocks (ProgramSentence options.implicitSemicolon) stop tokens before
      fault.token := by
  obtain ⟨statements, done, others, rest, rfl, hne, hdone, hrun⟩ := program_first_fault h
  obtain ⟨before, hstops, more, last, hlast⟩ := statementRun_halts options stop _ _ _ hrun
  have hrest : DerivesProgram options.implicitSemicolon [last]
      ([] ++ before ++ more ++ [⟨.semicolon, [';'], .none, 1⟩]) := .closed hlast rfl .empty
  have hviable : Viable (ProgramSentence options.implicitSemicolon) (done ++ before) := by
    have hprogram := hdone.append hrest
    rw [List.nil_append, List.append_assoc before, ← List.append_assoc done] at hprogram
    exact ⟨_, _, hprogram⟩
  refine ⟨done ++ before, Blocks.of_refused (statementRun_local options stop stop) hrun hstops
    hviable ?_ ?_ (not_programSentence hdone hne hdeep hrun)⟩
  · rintro sentence ⟨whole, hwhole⟩
    exact hwhole.not_lacksValue
  · intro other left hother hrefused
    exact not_programSentence hdone hother hdeep hrefused

end Programs

end Reader

namespace Parser

/-- A parser that has failed stands at the token that blocks the expression, or behind it if that is
a literal without a value. -/
theorem expression_error_blocks {options : ReadingOptions} {tokens : List Token} {stop : Token}
    (hstop : stop.isEnd = true) (htokens : ∀ token ∈ tokens, token.isEnd = false)
    {fault : SyntaxFault} {parser : Parser}
    (h : expression ⟨tokens ++ [stop], stop, tokens, options⟩ = (.error fault, parser))
    (hdeep : fault.cause ≠ .nestingTooDeep) :
    ∃ before, Blocks Layer.expression.Sentence stop tokens before fault.token ∧
      (parser.current = before.length ∨
        fault.token.LacksValue ∧ parser.current = before.length + 1) := by
  have hbody := body_append_end hstop htokens
  unfold expression at h
  dsimp only at h
  split at h
  · rename_i other rest hrun
    obtain ⟨hfault, rfl⟩ := Prod.mk.inj h
    cases hfault
    obtain ⟨before, hstops, hblocks⟩ := Reader.expression_refused_blocks hrun hdeep
    refine ⟨before, hblocks, ?_⟩
    rw [current, hbody]
    cases hstops with
    | here hsplit htoken =>
      left
      rw [hsplit, List.length_append, Nat.add_sub_cancel]
    | behind hsplit hlacks =>
      right
      refine ⟨hlacks, ?_⟩
      rw [hsplit, List.length_append, List.length_cons, ← Nat.add_assoc, Nat.add_right_comm,
        Nat.add_sub_cancel]
  · cases h
  · rename_i tree token rest hrun
    obtain ⟨hfault, rfl⟩ := Prod.mk.inj h
    cases hfault
    obtain ⟨before, hsplit, hblocks⟩ := Reader.expression_accepted_blocks hrun
    refine ⟨before, hblocks, .inl ?_⟩
    rw [current, hbody, hsplit, List.length_append, Nat.add_sub_cancel]

/-- The fault of an expression, and the first fault of a program, is at the first token with which
nothing that the grammar derives can go on; or at the end of the source, if the whole source is the
front of a sentence and not a sentence itself. The grammar has no bound on nesting here, so this is
said of every fault but that of nesting too deep. A parser that fails to read an expression is left
at that token, or behind it if that is a literal without a value. -/
theorem first_fault_blocks (options : ReadingOptions) (tokens : List Token) (stop : Token)
    (hstop : stop.isEnd = true) (htokens : ∀ token ∈ tokens, token.isEnd = false) :
    (∀ fault parser,
      (ofTokens options (tokens ++ [stop])).map expression = .ok (.error fault, parser) →
      fault.cause ≠ .nestingTooDeep →
      ∃ before, Blocks Layer.expression.Sentence stop tokens before fault.token ∧
        (parser.current = before.length ∨
          fault.token.LacksValue ∧ parser.current = before.length + 1)) ∧
    ∀ reading fault,
      (ofTokens options (tokens ++ [stop])).map (fun parser => parser.program.1) = .ok reading →
      reading.faults.head? = some fault → fault.cause ≠ .nestingTooDeep →
      ∃ before, Blocks (ProgramSentence options.implicitSemicolon) stop tokens before
        fault.token := by
  rw [ofTokens_append_end options hstop htokens]
  constructor
  · intro fault parser h hdeep
    exact expression_error_blocks hstop htokens (Except.ok.inj h) hdeep
  · intro reading fault h hfirst hdeep
    have hreading : (program ⟨tokens ++ [stop], stop, tokens, options⟩).1 = reading :=
      Except.ok.inj h
    rw [← hreading, program_fst] at hfirst
    exact Reader.program_first_fault_blocks hfirst hdeep

/-- A sign without an operand is a fault at the semicolon after it. -/
theorem first_fault_blocks_operand :
    (∃ before, Blocks Layer.expression.Sentence (Token.endOfSource 1)
      [⟨.minus, ['-'], .none, 1⟩, ⟨.semicolon, [';'], .none, 1⟩] before
      ⟨.semicolon, [';'], .none, 1⟩) ∧
    ∃ before, Blocks (ProgramSentence false) (Token.endOfSource 1)
      [⟨.minus, ['-'], .none, 1⟩, ⟨.semicolon, [';'], .none, 1⟩] before
      ⟨.semicolon, [';'], .none, 1⟩ := by
  have hblocks := first_fault_blocks ⟨1, false⟩
    [⟨.minus, ['-'], .none, 1⟩, ⟨.semicolon, [';'], .none, 1⟩] (Token.endOfSource 1) rfl (by decide)
  constructor
  · obtain ⟨before, hbefore, -⟩ :=
      hblocks.1 ⟨⟨.semicolon, [';'], .none, 1⟩, .expectedExpression⟩ _ rfl (by decide)
    exact ⟨before, hbefore⟩
  · refine hblocks.2 _ ⟨⟨.semicolon, [';'], .none, 1⟩, .expectedExpression⟩ rfl ?_ (by decide)
    change ((Reader.program ⟨1, false⟩ (Token.endOfSource 1)
      [⟨.minus, ['-'], .none, 1⟩, ⟨.semicolon, [';'], .none, 1⟩]).filterMap
        Reader.fault?).head? = _
    rw [Reader.program_refused rfl]
    rfl

end Parser

end Lox
