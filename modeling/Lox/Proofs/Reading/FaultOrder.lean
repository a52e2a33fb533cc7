import Lox.Proofs.Reading.Refusal
import Lox.Proofs.Reading.ViablePrefix

/-!
# Faults in the order of the tokens

Reading passes over the token of every fault before it resumes. So the tokens of the faults of a
program are some of the tokens read, in their order and none of them twice.
-/

namespace Lox

namespace Reader

/-- Resuming leaves the end of the tokens behind the one that reading stopped at. -/
theorem resume_suffix_of_stops {stop : Token} {tokens before left : List Token}
    {fault : SyntaxFault} (h : StopsAfter stop tokens before fault left) :
    (left = [] ∧ tokens = before ∧ fault.token = stop) ∨
      ∃ more, tokens = before ++ fault.token :: more ∧ resume left <:+ more := by
  cases h with
  | here htokens htoken =>
    cases left with
    | nil => exact .inl ⟨rfl, by rw [htokens, List.append_nil], htoken⟩
    | cons token rest =>
      have hsame : fault.token = token := htoken
      exact .inr ⟨rest, by rw [htokens, hsame], boundaryAfter_suffix token rest⟩
  | behind htokens hlacks => exact .inr ⟨left, htokens, resume_suffix left⟩

/-- The tokens of the faults of a program, with the end of the source behind its tokens, are some of
them in order, each at most once. -/
theorem faults_sublist (options : ReadingOptions) (stop : Token) (tokens : List Token) :
    List.Sublist (((program options stop tokens).filterMap fault?).map SyntaxFault.token)
      (tokens ++ [stop]) := by
  fun_induction program options stop tokens with
  | case1 => exact List.nil_sublist _
  | case2 token rest statement after htaken ih =>
    have hadv := statementRun_advances options stop (token :: rest)
    rw [htaken] at hadv
    exact ih.trans (hadv.1.sublist.append_right [stop])
  | case3 token rest fault left htaken ih =>
    obtain ⟨before, hstops, -⟩ := statementRun_halts options stop _ _ _ htaken
    change List.Sublist (fault.token ::
      ((program options stop (resume left)).filterMap fault?).map SyntaxFault.token) _
    rcases resume_suffix_of_stops hstops with ⟨rfl, htokens, htoken⟩ | ⟨more, htokens, hresume⟩
    · -- Nothing is left behind the end of the source, so no later fault can be at it.
      have hlast : program options stop (resume []) = [] := by rw [resume, program]
      rw [hlast, htoken]
      exact List.sublist_append_right _ _
    · have hlater := ih.trans (hresume.sublist.append_right [stop])
      rw [htokens, List.append_assoc]
      exact (hlater.cons_cons fault.token).trans (List.sublist_append_right before _)

end Reader

namespace Parser

/-- The tokens of the faults that a parser finds in a program are some of its tokens, in order. -/
theorem faults_sublist (parser : Parser) :
    List.Sublist (parser.program.1.faults.map SyntaxFault.token)
      (parser.rest ++ [parser.stop]) :=
  Reader.faults_sublist parser.options parser.stop parser.rest

/-- The token of the fault that a parser finds in an expression is one of its tokens. -/
theorem mem_of_expression_error {parser : Parser} {fault : SyntaxFault}
    (h : parser.expression.1 = .error fault) : fault.token ∈ parser.rest ++ [parser.stop] := by
  have hadv := (Reader.expression parser.stop parser.options.allowance).advances parser.rest
  have hhalts := Reader.expression_halts parser.stop parser.options.allowance parser.rest
  unfold expression at h
  split at h
  · rename_i found left hrun
    cases h
    obtain ⟨before, hstops, -⟩ := hhalts _ _ hrun
    rcases Reader.resume_suffix_of_stops hstops with ⟨-, -, htoken⟩ | ⟨more, htokens, -⟩
    · exact List.mem_append_right _ (List.mem_singleton.mpr htoken)
    · rw [htokens]
      exact List.mem_append_left _ (List.mem_append_right _ List.mem_cons_self)
  · cases h
  · rename_i value token left hrun
    cases h
    rw [hrun] at hadv
    exact List.mem_append_left _ (hadv.1.subset List.mem_cons_self)

end Parser

end Lox
