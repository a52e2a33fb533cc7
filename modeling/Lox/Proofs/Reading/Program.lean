import Lox.Proofs.Reading.Expression

/-!
# Reading programs follows the grammar

A statement is derived without the semicolon that closes it; a program is derived by its statements
in order, each followed by a semicolon. Only the last semicolon may be missing, and only where the
options say so. Reading rounds succeed exactly on what the program grammar derives within the
allowance, so no statement is lost, made up or moved.
-/

namespace Lox

/-- The token list is a derivation of the statement without its semicolon. -/
inductive DerivesStatement : Stmt → List Token → Prop where
  /-- An expression alone. -/
  | expression {value : Expr} {tokens : List Token} (hvalue : Derives .expression value tokens) :
      DerivesStatement (.expression value) tokens
  /-- The word for printing before an expression. -/
  | print {word : Token} {value : Expr} {tokens : List Token}
      (hword : word.kind = .keyword .printWord) (hvalue : Derives .expression value tokens) :
      DerivesStatement (.print value) (word :: tokens)
  /-- A variable without a value. -/
  | declaration {word name : Token} (hword : word.kind = .keyword .varWord)
      (hname : name.kind = .identifier) : DerivesStatement (.declaration name none) [word, name]
  /-- A variable with the expression of its value. -/
  | definition {word name sign : Token} {value : Expr} {tokens : List Token}
      (hword : word.kind = .keyword .varWord) (hname : name.kind = .identifier)
      (hsign : sign.kind = .equal) (hvalue : Derives .expression value tokens) :
      DerivesStatement (.declaration name (some value)) (word :: name :: sign :: tokens)

/-- The token list is a derivation of the statements; the last semicolon may be implicit. -/
inductive DerivesProgram (implicit : Bool) : List Stmt → List Token → Prop where
  /-- Nothing is the empty program. -/
  | empty : DerivesProgram implicit [] []
  /-- A statement, its semicolon and the statements after it. -/
  | closed {statement : Stmt} {statements : List Stmt} {tokens others : List Token}
      {semicolon : Token} (hstatement : DerivesStatement statement tokens)
      (hsemicolon : semicolon.kind = .semicolon)
      (hothers : DerivesProgram implicit statements others) :
      DerivesProgram implicit (statement :: statements) (tokens ++ semicolon :: others)
  /-- The last statement without a semicolon. -/
  | unclosed {statement : Stmt} {tokens : List Token} (himplicit : implicit = true)
      (hstatement : DerivesStatement statement tokens) :
      DerivesProgram implicit [statement] tokens

/-- The nesting of the expression in a statement. -/
def Stmt.nesting : Stmt → Nat
  | expression value => value.nesting
  | print value => value.nesting
  | declaration _ none => 0
  | declaration _ (some value) => value.nesting

/-- The end of a statement, before what is left after it: a semicolon, or nothing at all where that
is allowed. -/
def ClosesStatement (implicit : Bool) (ending rest : List Token) : Prop :=
  (∃ semicolon : Token, semicolon.kind = .semicolon ∧ ending = semicolon :: rest) ∨
    (implicit = true ∧ ending = [] ∧ rest = [])

namespace Reader

variable {options : ReadingOptions} {stop : Token}

/-- The end of a statement closes it. -/
theorem endRun_of_closes {cause : Cause} {statement : Stmt} {ending rest : List Token}
    (h : ClosesStatement options.implicitSemicolon ending rest) :
    endRun options stop cause statement ending = .accepted statement rest := by
  rcases h with ⟨semicolon, hkind, rfl⟩ | ⟨himplicit, rfl, rfl⟩
  · rw [endRun, if_pos hkind]
  · rw [endRun, if_pos himplicit]

/-- Nothing but the end of a statement closes it. -/
theorem closes_of_endRun {cause : Cause} {statement other : Stmt} {ending rest : List Token}
    (h : endRun options stop cause statement ending = .accepted other rest) :
    other = statement ∧ ClosesStatement options.implicitSemicolon ending rest := by
  cases ending with
  | nil =>
    simp only [endRun] at h
    split at h
    · rename_i himplicit
      cases h
      exact ⟨rfl, .inr ⟨himplicit, rfl, rfl⟩⟩
    · cases h
  | cons token others =>
    simp only [endRun] at h
    split at h
    · rename_i hkind
      cases h
      exact ⟨rfl, .inl ⟨token, hkind, rfl⟩⟩
    · cases h

/-- Nothing goes on with an expression at the end of a statement. -/
theorem ends_of_closes {implicit : Bool} {ending rest : List Token} (bound : Nat)
    (h : ClosesStatement implicit ending rest) : Ends bound ending := by
  rcases h with ⟨semicolon, hkind, rfl⟩ | ⟨-, rfl, -⟩
  · exact ends_of_level?_eq_none bound (by rw [hkind]; rfl) rest
  · intro token hmem
    cases hmem

/-- A statement made of an expression is read from a derivation of the expression and an end. -/
theorem valueRun_of_derives {cause : Cause} {make : Expr → Stmt} {value : Expr}
    {tokens ending rest : List Token} (hvalue : Derives .expression value tokens)
    (hnesting : value.nesting ≤ options.allowance)
    (hends : ClosesStatement options.implicitSemicolon ending rest) :
    valueRun options stop cause make (tokens ++ ending) = .accepted (make value) rest := by
  have hread := readsOn_of_derives stop hvalue options.allowance hnesting
  have hrun : (expression stop options.allowance).run (tokens ++ ending) =
      .accepted value ending := hread.accepts (ends_of_closes _ hends)
  simp only [valueRun, hrun]
  exact endRun_of_closes hends

/-- A statement made of an expression takes a derivation of the expression and an end. -/
theorem valueRun_sound {cause : Cause} {make : Expr → Stmt} {statement : Stmt}
    {tokens rest : List Token}
    (h : valueRun options stop cause make tokens = .accepted statement rest) :
    ∃ value taken ending, tokens = taken ++ ending ∧ statement = make value ∧
      Derives .expression value taken ∧ value.nesting ≤ options.allowance ∧
      ClosesStatement options.implicitSemicolon ending rest := by
  unfold valueRun at h
  split at h
  · rename_i value ending hrun
    obtain ⟨hstatement, hends⟩ := closes_of_endRun h
    obtain ⟨taken, htaken, hvalue, hnesting⟩ := expression_sound _ _ _ _ _ hrun
    exact ⟨value, taken, ending, htaken, hstatement, hvalue, hnesting, hends⟩
  · cases h

/-- Every derivation of a statement within the allowance is read, up to its end. -/
theorem statementRun_of_derives {statement : Stmt} {tokens ending rest : List Token}
    (h : DerivesStatement statement tokens) (hnesting : statement.nesting ≤ options.allowance)
    (hends : ClosesStatement options.implicitSemicolon ending rest) :
    statementRun options stop (tokens ++ ending) = .accepted statement rest := by
  cases h with
  | @expression value _ hvalue =>
    obtain ⟨first, others, rfl, hopens⟩ := hvalue.first
    have hvar : first.kind ≠ .keyword .varWord := by
      intro hkind
      rw [hkind] at hopens
      cases hopens
    have hprint : first.kind ≠ .keyword .printWord := by
      intro hkind
      rw [hkind] at hopens
      cases hopens
    rw [List.cons_append, statementRun, if_neg hvar, if_neg hprint]
    exact valueRun_of_derives hvalue hnesting hends
  | print hword hvalue =>
    have hvar : (Kind.keyword .printWord) ≠ .keyword .varWord := by decide
    rw [List.cons_append, statementRun, hword, if_neg hvar, if_pos rfl]
    exact valueRun_of_derives hvalue hnesting hends
  | declaration hword hname =>
    rw [List.cons_append, statementRun, if_pos hword, List.cons_append, declarationRun,
      if_pos hname, List.nil_append]
    rcases hends with ⟨semicolon, hkind, rfl⟩ | ⟨himplicit, rfl, rfl⟩
    · have hequal : semicolon.kind ≠ .equal := by rw [hkind]; decide
      rw [initializerRun, if_neg hequal]
      exact endRun_of_closes (.inl ⟨semicolon, hkind, rfl⟩)
    · exact endRun_of_closes (.inr ⟨himplicit, rfl, rfl⟩)
  | definition hword hname hsign hvalue =>
    rw [List.cons_append, statementRun, if_pos hword, List.cons_append, declarationRun,
      if_pos hname, List.cons_append, initializerRun, if_pos hsign]
    exact valueRun_of_derives hvalue hnesting hends

/-- What is read after the word that opens a declaration completes a derivation, before its
end. -/
theorem declarationRun_sound {word : Token} {statement : Stmt} {tokens rest : List Token}
    (hword : word.kind = .keyword .varWord)
    (h : declarationRun options stop tokens = .accepted statement rest) :
    ∃ taken ending, tokens = taken ++ ending ∧ DerivesStatement statement (word :: taken) ∧
      statement.nesting ≤ options.allowance ∧
      ClosesStatement options.implicitSemicolon ending rest := by
  cases tokens with
  | nil => cases h
  | cons name others =>
    simp only [declarationRun] at h
    split at h
    · rename_i hname
      cases others with
      | nil =>
        rw [initializerRun] at h
        obtain ⟨rfl, hends⟩ := closes_of_endRun h
        exact ⟨[name], [], rfl, .declaration hword hname, Nat.zero_le _, hends⟩
      | cons sign others =>
        rw [initializerRun] at h
        split at h
        · rename_i hsign
          obtain ⟨value, taken, ending, rfl, rfl, hvalue, hnesting, hends⟩ := valueRun_sound h
          exact ⟨name :: sign :: taken, ending, rfl, .definition hword hname hsign hvalue,
            hnesting, hends⟩
        · obtain ⟨rfl, hends⟩ := closes_of_endRun h
          exact ⟨[name], sign :: others, rfl, .declaration hword hname, Nat.zero_le _, hends⟩
    · cases h

/-- What is read as a statement is a derivation of it within the allowance, and its end. -/
theorem statementRun_sound {statement : Stmt} {tokens rest : List Token}
    (h : statementRun options stop tokens = .accepted statement rest) :
    ∃ taken ending, tokens = taken ++ ending ∧ DerivesStatement statement taken ∧
      statement.nesting ≤ options.allowance ∧
      ClosesStatement options.implicitSemicolon ending rest := by
  cases tokens with
  | nil => cases h
  | cons word others =>
    simp only [statementRun] at h
    split at h
    · rename_i hword
      obtain ⟨taken, ending, rfl, hstatement, hnesting, hends⟩ := declarationRun_sound hword h
      exact ⟨word :: taken, ending, rfl, hstatement, hnesting, hends⟩
    · split at h
      · rename_i hword
        obtain ⟨value, taken, ending, rfl, rfl, hvalue, hnesting, hends⟩ := valueRun_sound h
        exact ⟨word :: taken, ending, rfl, .print hword hvalue, hnesting, hends⟩
      · obtain ⟨value, taken, ending, htaken, rfl, hvalue, hnesting, hends⟩ := valueRun_sound h
        exact ⟨taken, ending, htaken, .expression hvalue, hnesting, hends⟩

/-- A round that succeeds is followed by the rounds on what it left. -/
theorem program_accepted {statement : Stmt} {tokens rest : List Token}
    (h : statementRun options stop tokens = .accepted statement rest) :
    program options stop tokens = .ok statement :: program options stop rest := by
  cases tokens with
  | nil => cases h
  | cons token others =>
    rw [program]
    split
    · rename_i other after hrun
      rw [h] at hrun
      cases hrun
      rfl
    · rename_i fault left hrun
      rw [h] at hrun
      cases hrun

/-- A round that fails is followed by the rounds from the next boundary on. -/
theorem program_refused {fault : SyntaxFault} {token : Token} {others rest : List Token}
    (h : statementRun options stop (token :: others) = .refused fault rest) :
    program options stop (token :: others) =
      .error fault :: program options stop (resume rest) := by
  rw [program]
  split
  · rename_i statement after hrun
    rw [h] at hrun
    cases hrun
  · rename_i other left hrun
    rw [h] at hrun
    cases hrun
    rfl

/-- All rounds succeed on a derivation of a program within the allowance. -/
theorem program_of_derives {statements : List Stmt} {tokens : List Token}
    (h : DerivesProgram options.implicitSemicolon statements tokens)
    (hnesting : ∀ statement ∈ statements, statement.nesting ≤ options.allowance) :
    program options stop tokens = statements.map .ok := by
  induction h with
  | empty => rw [program, List.map_nil]
  | @closed statement statements tokens others semicolon hstatement hsemicolon hothers ih =>
    obtain ⟨hfirst, hrest⟩ := List.forall_mem_cons.mp hnesting
    have hrun : statementRun options stop (tokens ++ semicolon :: others) =
        .accepted statement others :=
      statementRun_of_derives hstatement hfirst (.inl ⟨semicolon, hsemicolon, rfl⟩)
    rw [program_accepted hrun, ih hrest, List.map_cons]
  | @unclosed statement tokens himplicit hstatement =>
    have hrun : statementRun options stop (tokens ++ []) = .accepted statement [] :=
      statementRun_of_derives hstatement (hnesting statement List.mem_cons_self)
        (.inr ⟨himplicit, rfl, rfl⟩)
    rw [List.append_nil] at hrun
    rw [program_accepted hrun, program, List.map_cons, List.map_nil]

/-- Rounds that all succeed took a derivation of a program within the allowance. -/
theorem program_sound {statements : List Stmt} {tokens : List Token}
    (h : program options stop tokens = statements.map .ok) :
    DerivesProgram options.implicitSemicolon statements tokens ∧
      ∀ statement ∈ statements, statement.nesting ≤ options.allowance := by
  fun_induction program options stop tokens generalizing statements with
  | case1 =>
    rw [List.map_eq_nil_iff.mp h.symm]
    exact ⟨.empty, fun statement hmem => absurd hmem List.not_mem_nil⟩
  | case2 token rest statement after hrun ih =>
    obtain ⟨first, others, rfl, hfirst, hothers⟩ := List.map_eq_cons_iff.mp h.symm
    cases hfirst
    obtain ⟨hprogram, hnesting⟩ := ih hothers.symm
    obtain ⟨taken, ending, htaken, hstatement, hown, hends⟩ := statementRun_sound hrun
    rw [htaken]
    refine ⟨?_, List.forall_mem_cons.mpr ⟨hown, hnesting⟩⟩
    rcases hends with ⟨semicolon, hkind, rfl⟩ | ⟨himplicit, rfl, rfl⟩
    · exact .closed hstatement hkind hprogram
    · rw [program] at hothers
      rw [List.map_eq_nil_iff.mp hothers, List.append_nil]
      exact .unclosed himplicit hstatement
  | case3 token rest fault left hrun ih =>
    obtain ⟨first, others, rfl, hfirst, hothers⟩ := List.map_eq_cons_iff.mp h.symm
    cases hfirst

/-- All rounds on a token list succeed with statements exactly if the tokens derive them within the
allowance. -/
theorem program_eq_map_ok_iff (options : ReadingOptions) (stop : Token) (tokens : List Token)
    (statements : List Stmt) :
    program options stop tokens = statements.map .ok ↔
      DerivesProgram options.implicitSemicolon statements tokens ∧
        ∀ statement ∈ statements, statement.nesting ≤ options.allowance :=
  ⟨program_sound, fun h => program_of_derives h.1 h.2⟩

end Reader

/-- No statement is derived from nothing. -/
theorem DerivesStatement.ne_nil {statement : Stmt} {tokens : List Token}
    (h : DerivesStatement statement tokens) : tokens ≠ [] := by
  cases h with
  | expression hvalue =>
    obtain ⟨first, others, rfl, -⟩ := hvalue.first
    exact List.cons_ne_nil first others
  | print hword hvalue => exact List.cons_ne_nil _ _
  | declaration hword hname => exact List.cons_ne_nil _ _
  | definition hword hname hsign hvalue => exact List.cons_ne_nil _ _

namespace DerivesProgram

/-- Nothing derives only the empty program. -/
theorem statements_eq_nil {implicit : Bool} {statements : List Stmt} {tokens : List Token}
    (h : DerivesProgram implicit statements tokens) (hnil : tokens = []) : statements = [] := by
  cases h with
  | empty => rfl
  | closed hstatement hsemicolon hothers => exact absurd hnil (by simp)
  | unclosed himplicit hstatement => exact absurd hnil hstatement.ne_nil

/-- A program that spells out all semicolons is a program where the last one may be implicit. -/
theorem to_implicit {statements : List Stmt} {tokens : List Token}
    (h : DerivesProgram false statements tokens) : DerivesProgram true statements tokens := by
  induction h with
  | empty => exact .empty
  | closed hstatement hsemicolon hothers ih => exact .closed hstatement hsemicolon ih
  | unclosed himplicit hstatement => cases himplicit

/-- A program where the last semicolon may be implicit spells all of them out, or does so with one
semicolon added. -/
theorem to_explicit {semicolon : Token} (hsemicolon : semicolon.kind = .semicolon)
    {statements : List Stmt} {tokens : List Token} (h : DerivesProgram true statements tokens) :
    DerivesProgram false statements tokens ∨
      DerivesProgram false statements (tokens ++ [semicolon]) := by
  induction h with
  | empty => exact .inl .empty
  | @closed statement statements tokens others own hstatement hown hothers ih =>
    rcases ih with ih | ih
    · exact .inl (.closed hstatement hown ih)
    · right
      rw [List.append_assoc, List.cons_append]
      exact .closed hstatement hown ih
  | unclosed himplicit hstatement => exact .inr (.closed hstatement hsemicolon .empty)

/-- The last semicolon can be dropped where it may be implicit. -/
theorem drop_semicolon {semicolon : Token} {statements : List Stmt} {all tokens : List Token}
    (h : DerivesProgram false statements all) (hall : all = tokens ++ [semicolon]) :
    DerivesProgram true statements tokens := by
  induction h generalizing tokens with
  | empty => exact absurd hall (by simp)
  | @closed statement statements taken others own hstatement hown hothers ih =>
    rcases List.eq_nil_or_concat others with hnil | ⟨front, last, hconcat⟩
    · have hstatements := hothers.statements_eq_nil hnil
      have htaken : taken = tokens := by
        rw [hnil] at hall
        exact (List.append_inj' hall rfl).1
      rw [hstatements, ← htaken]
      exact .unclosed rfl hstatement
    · rw [List.concat_eq_append] at hconcat
      have hsplit : (taken ++ own :: front) ++ [last] = tokens ++ [semicolon] := by
        rw [← hall, hconcat]
        simp
      obtain ⟨htokens, hlast⟩ := List.append_inj' hsplit rfl
      rw [← htokens]
      exact .closed hstatement hown (ih (by rw [hconcat, hlast]))
  | unclosed himplicit hstatement => cases himplicit

/-- Making the last semicolon implicit accepts a program exactly if it is complete as it stands or
becomes complete with one more semicolon. -/
theorem implicit_iff {semicolon : Token} (hsemicolon : semicolon.kind = .semicolon)
    (statements : List Stmt) (tokens : List Token) :
    DerivesProgram true statements tokens ↔
      DerivesProgram false statements tokens ∨
        DerivesProgram false statements (tokens ++ [semicolon]) := by
  constructor
  · exact to_explicit hsemicolon
  · rintro (h | h)
    · exact h.to_implicit
    · exact h.drop_semicolon rfl

end DerivesProgram

namespace Reader

/-- The fault of a round that failed. -/
def fault? : Except SyntaxFault Stmt → Option SyntaxFault
  | .error fault => some fault
  | .ok _ => none

/-- Rounds without a fault are the statements they read. -/
theorem rounds_eq_map_ok {rounds : List (Except SyntaxFault Stmt)}
    (h : rounds.filterMap fault? = []) :
    rounds = (rounds.filterMap Except.toOption).map .ok := by
  induction rounds with
  | nil => rfl
  | cons round rounds ih =>
    cases round with
    | error fault => exact absurd h (List.cons_ne_nil _ _)
    | ok statement => exact congrArg (Except.ok statement :: ·) (ih h)

/-- Rounds that all succeed have no fault. -/
theorem filterMap_fault?_map_ok (statements : List Stmt) :
    (statements.map Except.ok).filterMap fault? = [] := by
  induction statements with
  | nil => rfl
  | cons statement statements ih => exact ih

/-- Rounds that all succeed yield their statements. -/
theorem filterMap_toOption_map_ok (statements : List Stmt) :
    (statements.map (Except.ok : Stmt → Except SyntaxFault Stmt)).filterMap Except.toOption =
      statements := by
  induction statements with
  | nil => rfl
  | cons statement statements ih => exact congrArg (statement :: ·) ih

end Reader

namespace Parser

/-- A parser yields the statements of its rounds, unless some round has a fault. -/
theorem program_fst (parser : Parser) :
    parser.program.1 =
      (let rounds := Reader.program parser.options parser.stop parser.rest
      ⟨if rounds.filterMap Reader.fault? = [] then rounds.filterMap Except.toOption else [],
        rounds.filterMap Reader.fault?⟩) :=
  rfl

/-- A parser yields statements without a fault exactly if all rounds succeed with them. -/
theorem program_eq_iff (parser : Parser) (statements : List Stmt) :
    parser.program.1 = ⟨statements, []⟩ ↔
      Reader.program parser.options parser.stop parser.rest = statements.map .ok := by
  rw [program_fst]
  generalize Reader.program parser.options parser.stop parser.rest = rounds
  dsimp only
  rw [ProgramReading.mk.injEq]
  constructor
  · rintro ⟨hstatements, hfaults⟩
    rw [if_pos hfaults] at hstatements
    rw [← hstatements]
    exact Reader.rounds_eq_map_ok hfaults
  · intro hrounds
    rw [hrounds, Reader.filterMap_fault?_map_ok, if_pos rfl, Reader.filterMap_toOption_map_ok]
    exact ⟨rfl, rfl⟩

/-- What a parser of a token list reads as a program is what the tokens derive. -/
theorem ofTokens_program_iff (options : ReadingOptions) {tokens : List Token} {stop : Token}
    (hstop : stop.isEnd = true) (htokens : ∀ token ∈ tokens, token.isEnd = false)
    (statements : List Stmt) :
    (ofTokens options (tokens ++ [stop])).map (fun parser => parser.program.1) =
        .ok ⟨statements, []⟩ ↔
      DerivesProgram options.implicitSemicolon statements tokens ∧
        ∀ statement ∈ statements, statement.nesting ≤ options.allowance := by
  rw [ofTokens_append_end options hstop htokens]
  have hok := program_eq_iff ⟨tokens ++ [stop], stop, tokens, options⟩ statements
  have hrounds := Reader.program_eq_map_ok_iff options stop tokens statements
  simpa [Except.map] using hok.trans hrounds

/-- Reading a token list as a program succeeds with statements exactly if the tokens derive the
statements in order, none of them nested deeper than allowed. The option of an implicit semicolon
accepts exactly what is accepted without it, as it stands or with one semicolon added. -/
theorem program_ok_iff_derives (options : ReadingOptions) (tokens : List Token) (stop : Token)
    (hstop : stop.isEnd = true) (htokens : ∀ token ∈ tokens, token.isEnd = false) :
    (∀ statements,
      (ofTokens options (tokens ++ [stop])).map (fun parser => parser.program.1) =
          .ok ⟨statements, []⟩ ↔
        DerivesProgram options.implicitSemicolon statements tokens ∧
          ∀ statement ∈ statements, statement.nesting ≤ options.allowance) ∧
    ∀ (statements : List Stmt) (semicolon : Token), semicolon.kind = .semicolon →
      ((ofTokens ⟨options.allowance, true⟩ (tokens ++ [stop])).map
          (fun parser => parser.program.1) = .ok ⟨statements, []⟩ ↔
        (ofTokens ⟨options.allowance, false⟩ (tokens ++ [stop])).map
            (fun parser => parser.program.1) = .ok ⟨statements, []⟩ ∨
          (ofTokens ⟨options.allowance, false⟩ (tokens ++ [semicolon, stop])).map
            (fun parser => parser.program.1) = .ok ⟨statements, []⟩) := by
  refine ⟨ofTokens_program_iff options hstop htokens, fun statements semicolon hkind => ?_⟩
  have hmore : ∀ token ∈ tokens ++ [semicolon], token.isEnd = false := by
    intro token hmem
    rcases List.mem_append.mp hmem with hmem | hmem
    · exact htokens token hmem
    · rw [List.mem_singleton.mp hmem, Token.isEnd, hkind]
      rfl
  have hlist : tokens ++ [semicolon, stop] = (tokens ++ [semicolon]) ++ [stop] := by simp
  rw [hlist, ofTokens_program_iff _ hstop htokens, ofTokens_program_iff _ hstop htokens,
    ofTokens_program_iff _ hstop hmore, DerivesProgram.implicit_iff hkind, or_and_right]

/-- A declaration and a print statement without its semicolon are read where the last semicolon is
implicit. -/
theorem program_ok_iff_derives_unclosed :
    (ofTokens ⟨1, true⟩
        [⟨.keyword .varWord, "var".toList, .none, 1⟩, ⟨.identifier, ['a'], .none, 1⟩,
          ⟨.semicolon, [';'], .none, 1⟩, ⟨.keyword .printWord, "print".toList, .none, 2⟩,
          ⟨.minus, ['-'], .none, 2⟩, ⟨.identifier, ['a'], .none, 2⟩,
          Token.endOfSource 2]).map (fun parser => parser.program.1) =
      .ok ⟨[.declaration ⟨.identifier, ['a'], .none, 1⟩ none,
        .print (.unary ⟨.minus, ['-'], .none, 2⟩
          (.reference ⟨.identifier, ['a'], .none, 2⟩))], []⟩ := by
  have hname : Derives .primary (.reference ⟨.identifier, ['a'], .none, 2⟩)
      [⟨.identifier, ['a'], .none, 2⟩] := .reference rfl
  have hvalue : Derives .expression
      (.unary ⟨.minus, ['-'], .none, 2⟩ (.reference ⟨.identifier, ['a'], .none, 2⟩))
      [⟨.minus, ['-'], .none, 2⟩, ⟨.identifier, ['a'], .none, 2⟩] :=
    (Derives.unary rfl hname.primary).loosen (by decide)
  have hprogram : DerivesProgram true
      [.declaration ⟨.identifier, ['a'], .none, 1⟩ none,
        .print (.unary ⟨.minus, ['-'], .none, 2⟩ (.reference ⟨.identifier, ['a'], .none, 2⟩))]
      [⟨.keyword .varWord, "var".toList, .none, 1⟩, ⟨.identifier, ['a'], .none, 1⟩,
        ⟨.semicolon, [';'], .none, 1⟩, ⟨.keyword .printWord, "print".toList, .none, 2⟩,
        ⟨.minus, ['-'], .none, 2⟩, ⟨.identifier, ['a'], .none, 2⟩] :=
    .closed (.declaration rfl rfl) rfl (.unclosed rfl (.print rfl hvalue))
  exact ((program_ok_iff_derives ⟨1, true⟩ _ (Token.endOfSource 2) rfl (by decide)).1 _).mpr
    ⟨hprogram, by decide⟩

end Parser

end Lox
