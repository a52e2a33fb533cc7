import Lox.Proofs.Reading.Locality
import Lox.Proofs.Reading.Refusal
import Lox.Proofs.Reading.ViablePrefix
import Lox.Proofs.Reporting.Agreement

/-!
# Semicolons are boundaries

No statement takes a semicolon but the one that closes it, and no reader looks past a semicolon it
has not taken. So a fault before a semicolon is found without a look at what comes after it, and
passing over tokens to the next boundary ends there at the latest. The rounds on a token list that
goes on after a semicolon are the rounds up to the semicolon and then those on the rest, as if
either part were a source of its own.
-/

namespace Lox

/-- There is no semicolon in a statement before its end. -/
theorem DerivesStatement.ne_semicolon {statement : Stmt} {tokens : List Token}
    (h : DerivesStatement statement tokens) : ∀ token ∈ tokens, token.kind ≠ .semicolon := by
  have hexpression : ∀ {value : Expr} {tokens : List Token}, Derives .expression value tokens →
      ∀ token ∈ tokens, token.kind ≠ .semicolon := by
    intro value tokens hvalue token hmem hkind
    have hin := hvalue.inExpression token hmem
    rw [hkind] at hin
    cases hin
  cases h with
  | expression hvalue => exact hexpression hvalue
  | print hword hvalue =>
    rw [List.forall_mem_cons, hword]
    exact ⟨by decide, hexpression hvalue⟩
  | declaration hword hname =>
    rw [List.forall_mem_cons, List.forall_mem_singleton, hword, hname]
    decide
  | definition hword hname hsign hvalue =>
    rw [List.forall_mem_cons, List.forall_mem_cons, List.forall_mem_cons, hword, hname, hsign]
    exact ⟨by decide, by decide, by decide, hexpression hvalue⟩

/-- The tokens are none, or the last one is a semicolon. -/
def EndsClosed (tokens : List Token) : Prop := ∀ token ∈ tokens.getLast?, token.kind = .semicolon

/-- What ends with a semicolon, unless it is empty, is so up to its end. -/
theorem EndsClosed.suffix {rest tokens : List Token} (h : EndsClosed tokens)
    (hsuffix : rest <:+ tokens) : EndsClosed rest := by
  intro token hmem
  obtain ⟨front, rfl⟩ := hsuffix
  refine h token ?_
  rw [List.getLast?_append, Option.mem_def.mp hmem]
  rfl

/-- Tokens that end with a semicolon and are not empty are some tokens before a semicolon. -/
theorem EndsClosed.exists_concat {tokens : List Token} (h : EndsClosed tokens)
    (hne : tokens ≠ []) :
    ∃ front semicolon, tokens = front ++ [semicolon] ∧ semicolon.kind = .semicolon := by
  rcases List.eq_nil_or_concat tokens with hnil | ⟨front, last, hconcat⟩
  · exact absurd hnil hne
  · rw [List.concat_eq_append] at hconcat
    exact ⟨front, last, hconcat, h last (by simp [hconcat])⟩

namespace Reader

variable {options : ReadingOptions} {stop : Token}

/-- A statement that stops before a semicolon leaves that semicolon. -/
theorem rest_ne_nil_of_refused {tokens rest : List Token} {fault : SyntaxFault}
    (hclosed : EndsClosed tokens) (hne : tokens ≠ [])
    (h : statementRun options stop tokens = .refused fault rest) : rest ≠ [] := by
  rintro rfl
  obtain ⟨front, semicolon, rfl, hkind⟩ := hclosed.exists_concat hne
  obtain ⟨before, hstops, more, statement, hstatement⟩ := statementRun_halts options stop _ _ _ h
  cases hstops with
  | here htokens htoken =>
    rw [List.append_nil] at htokens
    refine hstatement.ne_semicolon semicolon ?_ hkind
    simp [← htokens]
  | behind htokens hlacks =>
    obtain ⟨-, hlast⟩ := List.append_inj' htokens rfl
    obtain ⟨hliteral, -⟩ := hlacks
    rw [← (List.cons.inj hlast).1, hkind] at hliteral
    rcases hliteral with hliteral | hliteral <;> cases hliteral

/-- Up to a semicolon a statement is read in the same way whatever comes after it. -/
theorem statementRun_append {tokens : List Token} {reading : Reading Stmt}
    (hclosed : EndsClosed tokens) (hne : tokens ≠ [])
    (hrun : statementRun options stop tokens = reading) (stop' : Token) (more : List Token) :
    statementRun options stop' (tokens ++ more) = reading.leaving (reading.rest ++ more) := by
  cases reading with
  | accepted statement rest =>
    obtain ⟨taken, ending, rfl, hstatement, hnesting, hends⟩ := statementRun_sound hrun
    rcases hends with ⟨semicolon, hkind, rfl⟩ | ⟨-, rfl, -⟩
    · rw [List.append_assoc]
      exact statementRun_of_derives hstatement hnesting (.inl ⟨semicolon, hkind, rfl⟩)
    · rw [List.append_nil] at hclosed hne
      obtain ⟨front, semicolon, rfl, hkind⟩ := hclosed.exists_concat hne
      exact absurd hkind (hstatement.ne_semicolon semicolon (by simp))
  | refused fault rest =>
    have hrest := rest_ne_nil_of_refused hclosed hne hrun
    have hshort : statementRun options stop (tokens ++ []) = .refused fault rest := by
      rw [List.append_nil, hrun]
    exact (statementRun_local options stop stop').of_eq hshort hrest (List.append_nil rest).symm
      more

/-- Passing over tokens that end with a semicolon goes no further than that. -/
theorem boundaryAfter_append {passed : Token} {tokens : List Token}
    (hclosed : EndsClosed (passed :: tokens)) (more : List Token) :
    boundaryAfter passed (tokens ++ more) = boundaryAfter passed tokens ++ more := by
  induction tokens generalizing passed with
  | nil =>
    have hkind : passed.kind = .semicolon := hclosed passed rfl
    cases more with
    | nil => rfl
    | cons token others => exact if_pos (.inl hkind)
  | cons token tokens ih =>
    simp only [List.cons_append, boundaryAfter]
    split
    · rfl
    · exact ih (hclosed.suffix (List.suffix_cons passed (token :: tokens)))

/-- Reading resumes at the same boundary, whatever comes after a semicolon that is left. -/
theorem resume_append {rest : List Token} (hclosed : EndsClosed rest) (hne : rest ≠ [])
    (more : List Token) : resume (rest ++ more) = resume rest ++ more := by
  obtain ⟨token, others, rfl⟩ := List.exists_cons_of_ne_nil hne
  exact boundaryAfter_append hclosed more

/-- The rounds on tokens that go on after a semicolon are the rounds up to there and then those on
the rest. -/
theorem program_append (options : ReadingOptions) (stop stop' : Token) {tokens : List Token}
    (hclosed : EndsClosed tokens) (more : List Token) :
    program options stop' (tokens ++ more) =
      program options stop tokens ++ program options stop' more := by
  fun_induction program options stop tokens with
  | case1 => rfl
  | case2 token others statement rest hrun ih =>
    have hwhole : statementRun options stop' (token :: others ++ more) =
        .accepted statement (rest ++ more) :=
      statementRun_append hclosed (List.cons_ne_nil token others) hrun stop' more
    have hadv := statementRun_advances options stop (token :: others)
    rw [hrun] at hadv
    rw [program_accepted hwhole, ih (hclosed.suffix hadv.1), List.cons_append]
  | case3 token others fault rest hrun ih =>
    have hwhole : statementRun options stop' (token :: (others ++ more)) =
        .refused fault (rest ++ more) :=
      statementRun_append hclosed (List.cons_ne_nil token others) hrun stop' more
    have hadv := statementRun_advances options stop (token :: others)
    rw [hrun] at hadv
    have hrest := hclosed.suffix hadv
    have hne := rest_ne_nil_of_refused hclosed (List.cons_ne_nil token others) hrun
    rw [List.cons_append, program_refused hwhole, List.cons_append, resume_append hrest hne,
      ih (hrest.suffix (resume_suffix rest))]

end Reader

namespace Parser

/-- What reading a program writes to a reporter that has written nothing before. -/
def reportText (parser : Parser) : Text :=
  ((parser.programTo (some {})).2.map Reporter.written).getD []

/-- Each fault of a program is written on a line of its own. -/
theorem reportText_eq (parser : Parser) :
    parser.reportText = parser.program.1.reports.flatMap fun fault => Text.line fault.message := by
  rw [reportText, programTo_eq]
  exact Reporter.errors_written {} parser.program.1.reports

/-- What a parser reads is made of the rounds on the tokens that are left. -/
theorem program_of_rounds (parser first second : Parser)
    (h : Reader.program parser.options parser.stop parser.rest =
      Reader.program first.options first.stop first.rest ++
        Reader.program second.options second.stop second.rest) :
    parser.program.1.faults = first.program.1.faults ++ second.program.1.faults ∧
      (parser.program.1.faults = [] →
        parser.program.1.statements =
          first.program.1.statements ++ second.program.1.statements) := by
  rw [program_fst, program_fst, program_fst, h]
  dsimp only
  rw [List.filterMap_append, List.filterMap_append]
  refine ⟨rfl, fun hfaults => ?_⟩
  obtain ⟨hfirst, hsecond⟩ := List.append_eq_nil_iff.mp hfaults
  rw [if_pos hfaults, if_pos hfirst, if_pos hsecond]

/-- Every semicolon is a boundary of recovery. Let the tokens of a source go on after a semicolon.
Then its faults, and what is written of them, are those of the source that ends after the semicolon
and then those of the source that begins there; where there are none, so are its statements. This
holds round by round, so no fault before the semicolon changes what becomes of a statement after
it. -/
theorem program_append_at_semicolon (options : ReadingOptions) (front back : List Token)
    (semicolon stop stop' : Token) (hsemicolon : semicolon.kind = .semicolon)
    (hfront : ∀ token ∈ front, token.isEnd = false) (hback : ∀ token ∈ back, token.isEnd = false)
    (hstop : stop.isEnd = true) (hstop' : stop'.isEnd = true) :
    ∃ first second whole : Parser,
      ofTokens options (front ++ [semicolon] ++ [stop]) = .ok first ∧
      ofTokens options (back ++ [stop']) = .ok second ∧
      ofTokens options (front ++ [semicolon] ++ (back ++ [stop'])) = .ok whole ∧
      whole.program.1.faults = first.program.1.faults ++ second.program.1.faults ∧
      whole.reportText = first.reportText ++ second.reportText ∧
      (whole.program.1.faults = [] →
        whole.program.1.statements =
          first.program.1.statements ++ second.program.1.statements) ∧
      Reader.program options stop' (front ++ [semicolon] ++ back) =
        Reader.program options stop (front ++ [semicolon]) ++
          Reader.program options stop' back := by
  have hclosed : EndsClosed (front ++ [semicolon]) := by
    intro token hmem
    rw [List.getLast?_concat, Option.mem_some_iff] at hmem
    rw [← hmem, hsemicolon]
  have hfirst : ∀ token ∈ front ++ [semicolon], token.isEnd = false := by
    intro token hmem
    rcases List.mem_append.mp hmem with hmem | hmem
    · exact hfront token hmem
    · rw [List.mem_singleton.mp hmem, Token.isEnd, hsemicolon]
      rfl
  have hwhole : ∀ token ∈ front ++ [semicolon] ++ back, token.isEnd = false := by
    intro token hmem
    rcases List.mem_append.mp hmem with hmem | hmem
    · exact hfirst token hmem
    · exact hback token hmem
  have hparser := ofTokens_append_end options hstop' hwhole
  rw [List.append_assoc] at hparser
  have hrounds := Reader.program_append options stop stop' hclosed back
  obtain ⟨hfaults, hstatements⟩ := program_of_rounds
    ⟨front ++ [semicolon] ++ (back ++ [stop']), stop', front ++ [semicolon] ++ back, options⟩
    ⟨front ++ [semicolon] ++ [stop], stop, front ++ [semicolon], options⟩
    ⟨back ++ [stop'], stop', back, options⟩ hrounds
  refine ⟨_, _, _, ofTokens_append_end options hstop hfirst,
    ofTokens_append_end options hstop' hback, hparser, hfaults, ?_, hstatements, hrounds⟩
  simp only [reportText_eq, ProgramReading.reports, hfaults, List.map_append, List.flatMap_append]

/-- A parenthesis that is never closed does not hide the name without a semicolon after it. -/
theorem program_append_at_semicolon_unclosed :
    ∃ first second whole : Parser,
      ofTokens ⟨1, false⟩ [⟨.leftParen, ['('], .none, 1⟩, ⟨.semicolon, [';'], .none, 1⟩,
        Token.endOfSource 1] = .ok first ∧
      ofTokens ⟨1, false⟩ [⟨.identifier, ['a'], .none, 2⟩, Token.endOfSource 2] = .ok second ∧
      ofTokens ⟨1, false⟩ [⟨.leftParen, ['('], .none, 1⟩, ⟨.semicolon, [';'], .none, 1⟩,
        ⟨.identifier, ['a'], .none, 2⟩, Token.endOfSource 2] = .ok whole ∧
      whole.program.1.faults = first.program.1.faults ++ second.program.1.faults ∧
      whole.reportText = first.reportText ++ second.reportText := by
  obtain ⟨first, second, whole, hfirst, hsecond, hwhole, hfaults, htext, -⟩ :=
    program_append_at_semicolon ⟨1, false⟩ [⟨.leftParen, ['('], .none, 1⟩]
      [⟨.identifier, ['a'], .none, 2⟩] ⟨.semicolon, [';'], .none, 1⟩ (Token.endOfSource 1)
      (Token.endOfSource 2) rfl (by decide) (by decide) rfl rfl
  exact ⟨first, second, whole, hfirst, hsecond, hwhole, hfaults, htext⟩

end Parser

end Lox
