import Lox.Proofs.Pipeline
import Lox.Proofs.Reading.FaultOrder
import Lox.Proofs.Reporting.History
import Lox.Proofs.Source.Rescan
import Lox.Proofs.Text.Lines

/-!
# The lines of reports

Scanning a source and reading its tokens report each fault once, with a line feed after its message.
A message of scanning quotes what it shows of the source, so it stands on one line. A message of
reading shows the lexeme of a token as it is, and the lexeme of a string may hold line feeds. So a
report has one line feed for each fault, and one more for each line feed in a lexeme that it shows.
The messages are recovered by splitting the report at line feeds exactly if there are none of those.
-/

namespace Lox

/-- The mark of a line stands on one line. -/
theorem lineFeeds_lineMark (line : Int) : (lineMark line).lineFeeds = 0 := by
  have hlabels : Text.lineFeeds "[line ".toList + 0 + Text.lineFeeds [']'] = 0 := by decide
  change Text.lineFeeds ("[line ".toList ++ Text.ofInt line ++ [']']) = 0
  rw [Text.lineFeeds_append, Text.lineFeeds_append, Text.lineFeeds_ofInt]
  exact hlabels

/-- A cause is worded on one line, if no name is part of the wording. -/
theorem Cause.lineFeeds_message {cause : Cause} (h : ∀ name, cause ≠ .undefinedVariable name) :
    cause.message.lineFeeds = 0 := by
  cases cause with
  | undefinedVariable name => exact absurd rfl (h name)
  | _ => decide

/-- A fault of scanning is told as an error on its line, without a place. -/
theorem ScanFault.message_eq (fault : ScanFault) :
    fault.message = lineMark fault.line ++ " Error".toList ++ [] ++ ": ".toList ++
      fault.cause.message ++ if fault.details = [] then [] else ' ' :: fault.details := by
  have hlabel : " Error: ".toList = " Error".toList ++ [] ++ ": ".toList := by decide
  change lineMark fault.line ++ " Error: ".toList ++ fault.cause.message ++
    (if fault.details = [] then [] else ' ' :: fault.details) = _
  rw [hlabel]
  simp only [List.append_assoc]

/-- A fault of reading is told as an error on the line and at the place of its token. -/
theorem SyntaxFault.message_eq (fault : SyntaxFault) :
    fault.message = lineMark fault.token.line ++ " Error".toList ++ (' ' :: fault.token.location) ++
      ": ".toList ++ fault.cause.message := by
  have hlabel : " Error ".toList = " Error".toList ++ [' '] := by decide
  change lineMark fault.token.line ++ " Error ".toList ++ fault.token.location ++ ": ".toList ++
    fault.cause.message = _
  rw [hlabel]
  simp only [List.append_assoc, List.singleton_append]

/-- The words around the parts of a message stand on one line. -/
theorem lineFeeds_words :
    Text.lineFeeds " Error".toList = 0 ∧ Text.lineFeeds ": ".toList = 0 := by
  decide

/-- A fault of scanning is told on one line if its details are. -/
theorem ScanFault.lineFeeds_message {fault : ScanFault}
    (hcause : ∀ name, fault.cause ≠ .undefinedVariable name)
    (hdetails : fault.details.lineFeeds = 0) : fault.message.lineFeeds = 0 := by
  rw [message_eq]
  simp only [Text.lineFeeds_append, lineFeeds_lineMark, lineFeeds_words,
    Cause.lineFeeds_message hcause]
  split
  · rfl
  · rw [← List.singleton_append, Text.lineFeeds_append, hdetails]
    rfl

/-- The faults of a source are told on one line each: they quote what they show of it. -/
theorem Scan.lineFeeds_message {source : Text} {fault : ScanFault}
    (h : fault ∈ (ofSource source).faults) : fault.message.lineFeeds = 0 := by
  obtain ⟨⟨segment, line⟩, -, hfault⟩ := List.mem_filterMap.mp h
  cases segment with
  | stray c =>
    cases hfault
    exact ScanFault.lineFeeds_message (fun _ => Cause.noConfusion) (Quoted.lineFeeds_char c)
  | overflow text =>
    cases hfault
    exact ScanFault.lineFeeds_message (fun _ => Cause.noConfusion) (Quoted.lineFeeds_text text)
  | unterminated text =>
    cases hfault
    exact ScanFault.lineFeeds_message (fun _ => Cause.noConfusion) rfl
  | _ => cases hfault

/-- The place of a token is told on as many lines as its lexeme takes. -/
theorem Token.lineFeeds_location {token : Token} (h : token.isEnd = true → token.lexeme = []) :
    token.location.lineFeeds = token.lexeme.lineFeeds := by
  have hend : Text.lineFeeds "at end".toList = 0 := by decide
  have hquotes : Text.lineFeeds "at \x27".toList = 0 ∧ Text.lineFeeds ['\x27'] = 0 := by decide
  rw [location]
  split
  · rename_i hkind
    rw [hend, h hkind]
    rfl
  · rw [Text.lineFeeds_append, Text.lineFeeds_append, hquotes.1, hquotes.2, Nat.zero_add,
      Nat.add_zero]

/-- A fault of reading is told on one line, but for the line feeds in the lexeme that it shows. -/
theorem SyntaxFault.lineFeeds_message {fault : SyntaxFault}
    (hcause : ∀ name, fault.cause ≠ .undefinedVariable name)
    (hend : fault.token.isEnd = true → fault.token.lexeme = []) :
    fault.message.lineFeeds = fault.token.lexeme.lineFeeds := by
  rw [message_eq, ← List.singleton_append]
  simp only [Text.lineFeeds_append, lineFeeds_lineMark, lineFeeds_words,
    Cause.lineFeeds_message hcause, Token.lineFeeds_location hend]
  exact (Nat.zero_add _).trans (Nat.zero_add _)

/-- No fault of reading is about the name of a variable. -/
theorem SyntaxFault.Apt.cause_ne {fault : SyntaxFault} (h : fault.Apt) (name : Option Text) :
    fault.cause ≠ .undefinedVariable name := by
  intro hcause
  unfold SyntaxFault.Apt at h
  rw [hcause] at h
  exact h

namespace Scan

variable {source : Text} {token : Token}

/-- The end of a source has no text. -/
theorem lexeme_of_isEnd (h : token ∈ (ofSource source).tokens) (hend : token.isEnd = true) :
    token.lexeme = [] := by
  rcases List.mem_append.mp h with hmem | hmem
  · rw [isEnd_of_mem hmem] at hend
    cases hend
  · rw [List.mem_singleton.mp hmem]
    rfl

/-- Only strings span lines. -/
theorem kind_of_lineFeed (h : token ∈ (ofSource source).tokens) (hmem : '\n' ∈ token.lexeme) :
    token.kind = .string := by
  rcases List.mem_append.mp h with htoken | hlast
  · exact ((tokenClass_of_mem htoken).1.string_of_mem hmem (by decide)).1
  · rw [List.mem_singleton.mp hlast] at hmem
    exact absurd hmem List.not_mem_nil

end Scan

namespace Parser

/-- What is wrong with the tokens of a parser, read in either way, in order. -/
def faults (parser : Parser) : Mode → List SyntaxFault
  | .program => parser.program.1.faults
  | .expression =>
    match parser.expression.1 with
    | .error fault => [fault]
    | .ok _ => []

/-- A fault of reading is at one of the tokens and is not about the name of a variable. -/
theorem mem_of_mem_faults {parser : Parser} (hstop : parser.stop.isEnd = true) {mode : Mode}
    {fault : SyntaxFault} (h : fault ∈ parser.faults mode) :
    fault.token ∈ parser.rest ++ [parser.stop] ∧ ∀ name, fault.cause ≠ .undefinedVariable name := by
  cases mode with
  | program =>
    exact ⟨(faults_sublist parser).subset (List.mem_map_of_mem h),
      (arises_of_mem_faults hstop h).apt.cause_ne⟩
  | expression =>
    cases hread : parser.expression.1 with
    | ok tree => simp [faults, hread] at h
    | error other =>
      have hsame : fault = other := by simpa [faults, hread] using h
      subst hsame
      refine ⟨mem_of_expression_error hread, fun name => ?_⟩
      rcases arises_of_expression_error hstop hread with harises | hend
      · exact harises.apt.cause_ne name
      · rw [hend]
        exact Cause.noConfusion

end Parser

namespace Session

/-- The session after tokens were read in either way. -/
def afterReading (session : Session) (parser : Parser) : Mode → Session
  | .program => (session.readProgram parser).2
  | .expression => (session.readExpression parser).2

/-- Reading reports its faults. -/
theorem afterReading_reporter (session : Session) (parser : Parser) (mode : Mode) :
    (session.afterReading parser mode).reporter =
      session.reporter.errors ((parser.faults mode).map .parse) := by
  cases mode with
  | program =>
    rw [afterReading, readProgram_eq]
    rfl
  | expression =>
    rw [afterReading, readExpression_eq, Parser.faults]
    cases parser.expression.1 <;> rfl

end Session

/-- A report is its messages, one a line. -/
theorem reportLines_eq (faults : List Fault) :
    reportLines faults = (faults.map Fault.message).flatMap Text.line := by
  rw [reportLines, List.flatMap_map]

/-- Faults of the source and of reading as they are reported. -/
def staticFaults (scanned : List ScanFault) (found : List SyntaxFault) : List Fault :=
  scanned.map .scan ++ found.map .parse

section StaticFaults

variable {scanned : List ScanFault} {found : List SyntaxFault}

/-- A fault of the source or of reading is told as an error on its line. -/
theorem message_of_mem_staticFaults {fault : Fault} (h : fault ∈ staticFaults scanned found) :
    ∃ line cause place details, fault.line? = some line ∧ fault.ownCause? = some cause ∧
      fault.message = lineMark line ++ " Error".toList ++ place ++ ": ".toList ++ cause.message ++
        details := by
  rcases List.mem_append.mp h with hmem | hmem
  · obtain ⟨own, -, rfl⟩ := List.mem_map.mp hmem
    exact ⟨own.line, own.cause, [], _, rfl, rfl, by rw [Fault.message, own.message_eq]⟩
  · obtain ⟨own, -, rfl⟩ := List.mem_map.mp hmem
    exact ⟨own.token.line, own.cause, _, [], rfl, rfl, by
      rw [Fault.message, own.message_eq, List.append_nil]⟩

variable (hscanned : ∀ fault ∈ scanned, fault.message.lineFeeds = 0)
  (hfound : ∀ fault ∈ found, fault.message.lineFeeds = fault.token.lexeme.lineFeeds)

include hscanned hfound

/-- The line feeds of the messages are those of the lexemes that are shown. -/
theorem sum_lineFeeds_staticFaults :
    (((staticFaults scanned found).map Fault.message).map Text.lineFeeds).sum =
      (found.map fun fault => fault.token.lexeme.lineFeeds).sum := by
  have hscan : ((scanned.map Fault.scan).map fun fault => fault.message.lineFeeds).sum = 0 := by
    rw [List.sum_eq_zero_iff, List.map_map, List.forall_mem_map]
    simpa only [Function.comp_apply, Fault.message] using hscanned
  have hread : (found.map Fault.parse).map (fun fault => fault.message.lineFeeds) =
      found.map fun fault => fault.token.lexeme.lineFeeds := by
    rw [List.map_map]
    refine List.map_congr_left fun fault hfault => ?_
    rw [Function.comp_apply, Fault.message, hfound fault hfault]
  rw [List.map_map, staticFaults, List.map_append, List.sum_append]
  exact (congrArg₂ (· + ·) hscan (congrArg List.sum hread)).trans (Nat.zero_add _)

/-- All messages stand on one line exactly if no lexeme that is shown holds a line feed. -/
theorem lineFeeds_staticFaults_iff :
    (∀ message ∈ (staticFaults scanned found).map Fault.message, message.lineFeeds = 0) ↔
      ∀ fault ∈ found, '\n' ∉ fault.token.lexeme := by
  rw [← List.forall_mem_map (f := Text.lineFeeds) (P := fun n => n = 0), ← List.sum_eq_zero_iff,
    sum_lineFeeds_staticFaults hscanned hfound, List.sum_eq_zero_iff, List.forall_mem_map]
  exact forall₂_congr fun fault hmem => Text.lineFeeds_eq_zero_iff

end StaticFaults

namespace Session

/-- What scanning a source and reading its tokens report, whatever the options and whether the
tokens are read as statements or as an expression. Every fault is told as an error on its line, with
its cause. The report has one line feed for each fault, and besides one for each line feed in the
lexeme of a token at which reading stopped; only strings have such lexemes. So there are as many
line feeds as faults exactly if reading stopped at no string that spans lines, and exactly then
splitting the report at line feeds gives back the messages. -/
theorem report_lines (session : Session) (mode : Mode) (source : Text) :
    let scanned := session.scan source
    ∃ parser, Parser.ofTokens session.options scanned.1.tokens = .ok parser ∧
      let found := parser.faults mode
      let faults := scanned.1.reports ++ found.map .parse
      let report := reportLines faults
      (scanned.2.afterReading parser mode).reporter.written =
        session.reporter.written ++ report ∧
      (∀ fault ∈ faults, ∃ line cause place details, fault.line? = some line ∧
        fault.ownCause? = some cause ∧
        fault.message = lineMark line ++ " Error".toList ++ place ++ ": ".toList ++
          cause.message ++ details) ∧
      report.lineFeeds =
        faults.length + (found.map fun fault => fault.token.lexeme.lineFeeds).sum ∧
      (∀ fault ∈ found, '\n' ∈ fault.token.lexeme → fault.token.kind = .string) ∧
      (report.lineFeeds = faults.length ↔ ∀ fault ∈ found, '\n' ∉ fault.token.lexeme) ∧
      (report.splitOn '\n' = faults.map Fault.message ++ [[]] ↔
        ∀ fault ∈ found, '\n' ∉ fault.token.lexeme) := by
  intro scanned
  obtain ⟨parser, hparser, htokens, hstop, -⟩ := Scan.ofSource_closed session.options source
  have hscanned : scanned = _ := session.scan_eq source
  rw [hscanned]
  refine ⟨parser, hparser, ?_⟩
  intro found faults report
  have hmem : ∀ fault ∈ found, fault.token ∈ (Scan.ofSource source).tokens :=
    fun fault hfault => htokens ▸ (Parser.mem_of_mem_faults hstop hfault).1
  -- Only reading adds line feeds of its own, those of the lexemes that it shows.
  have hscan : ∀ fault ∈ (Scan.ofSource source).faults, fault.message.lineFeeds = 0 :=
    fun fault => Scan.lineFeeds_message
  have hfound : ∀ fault ∈ found, fault.message.lineFeeds = fault.token.lexeme.lineFeeds :=
    fun fault hfault => SyntaxFault.lineFeeds_message (Parser.mem_of_mem_faults hstop hfault).2
      (Scan.lexeme_of_isEnd (hmem fault hfault))
  have hreport : report = (faults.map Fault.message).flatMap Text.line := reportLines_eq faults
  have hone := lineFeeds_staticFaults_iff hscan hfound
  refine ⟨?_, fun fault => message_of_mem_staticFaults, ?_,
    fun fault hfault => Scan.kind_of_lineFeed (hmem fault hfault), ?_, ?_⟩
  · rw [afterReading_reporter, Reporter.errors_written, Reporter.errors_written, List.append_assoc,
      ← List.flatMap_append]
    rfl
  · have hsum := sum_lineFeeds_staticFaults hscan hfound
    rw [hreport, Text.lineFeeds_flatMap_line, List.length_map, Nat.add_comm]
    exact congrArg (faults.length + ·) hsum
  · have hcount := Text.lineFeeds_flatMap_line_iff (faults.map Fault.message)
    rw [← hreport, List.length_map] at hcount
    exact hcount.trans hone
  · rw [hreport]
    exact (Text.splitOn_flatMap_line_iff _).trans hone

/-- A string that spans lines after a complete expression: one fault, told on two lines. -/
theorem report_lines_broken :
    let source := "nil \"\n\"".toList
    let scanned := ({} : Session).scan source
    ∃ parser, Parser.ofTokens {} scanned.1.tokens = .ok parser ∧
      scanned.1.reports = [] ∧ (parser.faults .expression).length = 1 ∧
      (scanned.2.afterReading parser .expression).reporter.written =
        "[line 2] Error at \x27\"\n\"\x27: Expect end of expression.\n".toList ∧
      (scanned.2.afterReading parser .expression).reporter.written.lineFeeds = 2 := by
  intro source scanned
  have htokens : scanned.1.tokens = [⟨.keyword .nilWord, "nil".toList, .none, 1⟩,
      ⟨.string, "\"\n\"".toList, .string ['\n'], 2⟩, Token.endOfSource 2] := by decide +kernel
  have hfaults : scanned.1.faults = [] := by decide +kernel
  refine ⟨_, (congrArg (Parser.ofTokens {}) htokens).trans rfl, ?_, ?_, ?_, ?_⟩
  · rw [Scan.reports, hfaults]
    rfl
  · decide +kernel
  · decide +kernel
  · decide +kernel

end Session

end Lox
