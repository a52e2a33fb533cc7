import Lox.Proofs.Command.Diagnosis
import Lox.Proofs.Text.Lines
import Lox.Proofs.Tree.Legible

/-!
# Tokens as they are dumped

The dump of a token stands on one line, and each of its parts ends where the next one begins: the
name of the kind at a comma, the lexeme at its closing quote, the line at a brace. The literal is
determined by the lexeme, so it need not be read. So the tokens of a source are recovered from their
lines, and as the end of the source is the last token of every source and of no other place, the
lines also tell where the output of the program begins.
-/

namespace Lox

namespace Kind

/-- A kind of the language is known by its name. -/
theorem ofName?_name {kind : Kind} (h : kind ≠ .unknown) : ofName? kind.name = some kind := by
  cases kind with
  | keyword word => cases word <;> decide
  | unknown => exact absurd rfl h
  | _ => decide

/-- Names of kinds hold neither commas nor line feeds. -/
theorem not_mem_name (kind : Kind) : ',' ∉ kind.name ∧ '\n' ∉ kind.name := by
  cases kind with
  | keyword word => cases word <;> decide
  | _ => decide

end Kind

/-- No token class is that of no kind. -/
theorem TokenClass.ne_unknown {kind : Kind} {text : Text} (h : TokenClass kind text) :
    kind ≠ .unknown := by
  rintro rfl
  cases h with
  | symbol hsymbol => cases hsymbol

/-- The literal that a text stands for is dumped on one line. -/
theorem Denotes.lineFeeds_dump {kind : Kind} {text : Text} {literal : Literal}
    (h : Denotes kind text literal) : literal.dump.lineFeeds = 0 := by
  cases h with
  | string body => exact Quoted.lineFeeds_text body
  | none => rfl
  | @number _ _ x =>
    rw [Text.lineFeeds_eq_zero_iff]
    intro hmem
    rcases Literal.layout.text_mem_words_or x with hword | hdigits
    · have hwords : Literal.layout.words.all (fun word => decide ('\n' ∉ word)) = true := by decide
      exact of_decide_eq_true (List.all_eq_true.mp hwords _ hword) hmem
    · exact absurd (hdigits '\n' hmem) (by decide)

namespace Token

/-- The parts of a dump, each before what ends it. -/
theorem dump_append (token : Token) (rest : Text) :
    token.dump ++ rest = "\x7bType: ".toList ++ (token.kind.name ++ ',' :: (" Lexeme: ".toList ++
      (Quoted.text token.lexeme ++ (", Literal: ".toList ++ (token.literal.dump ++
        (", Line: ".toList ++ (Text.ofInt token.line ++ '\x7d' :: rest))))))) := by
  have hcomma : ", Lexeme: ".toList = ',' :: " Lexeme: ".toList := by decide
  change "\x7bType: ".toList ++ token.kind.name ++ ", Lexeme: ".toList ++
    Quoted.text token.lexeme ++ ", Literal: ".toList ++ token.literal.dump ++ ", Line: ".toList ++
    Text.ofInt token.line ++ ['\x7d'] ++ rest = _
  simp only [hcomma, List.append_assoc, List.cons_append, List.nil_append]

/-- The token is one that scanning yields: a genuine one or the end of the source. -/
def Scanned (token : Token) : Prop := token.Genuine ∨ token = endOfSource token.line

namespace Scanned

variable {token other : Token} {x y : Text}

/-- The kind of a token that scanning yields is one of the language. -/
theorem ne_unknown (h : token.Scanned) : token.kind ≠ .unknown := by
  rcases h with hgenuine | hend
  · exact hgenuine.1.ne_unknown
  · rw [hend]
    exact Kind.noConfusion

/-- The literal of a token that scanning yields is dumped on one line. -/
theorem lineFeeds_literal (h : token.Scanned) : token.literal.dump.lineFeeds = 0 := by
  rcases h with hgenuine | hend
  · exact hgenuine.2.lineFeeds_dump
  · rw [hend]
    rfl

/-- A token that scanning yields is dumped on one line. -/
theorem lineFeeds_dump (h : token.Scanned) : token.dump.lineFeeds = 0 := by
  rw [Text.lineFeeds_eq_zero_iff, ← List.append_nil token.dump, dump_append]
  simp only [List.mem_append, List.mem_cons, not_or]
  exact ⟨by decide, token.kind.not_mem_name.2, by decide, by decide,
    Text.lineFeeds_eq_zero_iff.mp (Quoted.lineFeeds_text token.lexeme), by decide,
    Text.lineFeeds_eq_zero_iff.mp h.lineFeeds_literal, by decide,
    Text.lineFeeds_eq_zero_iff.mp (Text.lineFeeds_ofInt token.line), by decide, List.not_mem_nil⟩

/-- Tokens that scanning yields differ in kind, lexeme or line, if at all. -/
theorem literal_eq (h : token.Scanned) (hother : other.Scanned)
    (hlexeme : token.lexeme = other.lexeme) : token.literal = other.literal := by
  rcases h with hgenuine | hend
  · rcases hother with hotherGenuine | hotherEnd
    · have hsame := congrArg Token.literal (hgenuine.unlined_eq hotherGenuine hlexeme)
      exact hsame
    · rw [hotherEnd] at hlexeme
      exact absurd hlexeme hgenuine.1.ne_nil
  · rcases hother with hotherGenuine | hotherEnd
    · rw [hend] at hlexeme
      exact absurd hlexeme.symm hotherGenuine.1.ne_nil
    · rw [hend, hotherEnd]
      rfl

/-- The name of a kind ends at the comma after it. -/
theorem name_append_inj (h : token.Scanned) (hother : other.Scanned)
    (heq : token.kind.name ++ ',' :: x = other.kind.name ++ ',' :: y) :
    token.kind = other.kind ∧ x = y := by
  obtain ⟨hnames, hrest⟩ :=
    append_cons_inj token.kind.not_mem_name.1 other.kind.not_mem_name.1 heq
  have hkinds := Kind.ofName?_name h.ne_unknown
  rw [hnames, Kind.ofName?_name hother.ne_unknown] at hkinds
  exact ⟨(Option.some.inj hkinds).symm, hrest⟩

end Scanned

/-- A line ends at the brace after it. -/
theorem line_append_inj {line other : Int} {x y : Text}
    (h : Text.ofInt line ++ '\x7d' :: x = Text.ofInt other ++ '\x7d' :: y) :
    line = other ∧ x = y := by
  have hbrace (n : Int) : '\x7d' ∉ Text.ofInt n := Text.not_mem_ofInt (by decide) (by decide) n
  obtain ⟨hlines, hrest⟩ := append_cons_inj (hbrace line) (hbrace other) h
  exact ⟨Text.ofInt_inj hlines, hrest⟩

/-- The dumps of tokens that scanning yields are told apart, whatever follows them. -/
theorem Scanned.dump_append_inj {token other : Token} {x y : Text} (h : token.Scanned)
    (hother : other.Scanned) (heq : token.dump ++ x = other.dump ++ y) :
    token = other ∧ x = y := by
  rw [dump_append, dump_append] at heq
  -- Part by part, each after its label.
  obtain ⟨hkind, hlabelled⟩ := h.name_append_inj hother (List.append_cancel_left heq)
  have hquoted := List.append_cancel_left hlabelled
  obtain ⟨hlexeme, hrest⟩ := Quoted.text_append_inj hquoted
  have hliteral := h.literal_eq hother hlexeme
  rw [hliteral] at hrest
  have hlined := List.append_cancel_left (List.append_cancel_left (List.append_cancel_left hrest))
  obtain ⟨hline, hafter⟩ := line_append_inj hlined
  refine ⟨?_, hafter⟩
  calc token = ⟨token.kind, token.lexeme, token.literal, token.line⟩ := rfl
    _ = ⟨other.kind, other.lexeme, other.literal, other.line⟩ := by
      rw [hkind, hlexeme, hliteral, hline]

/-- The tokens are what scanning yields of a source: the last one is its end, and no other is. -/
inductive Closed : List Token → Prop where
  /-- The end of the source. -/
  | last {token : Token} (hscanned : token.Scanned) (hend : token.isEnd = true) : Closed [token]
  /-- A token that is not the end, before others. -/
  | cons {token : Token} {rest : List Token} (hscanned : token.Scanned)
      (hend : token.isEnd = false) (hrest : Closed rest) : Closed (token :: rest)

/-- The first of the tokens is recovered from the dump, with what follows it. -/
theorem Scanned.dumps_cons_inj {token other : Token} {rest others : List Token} {x y : Text}
    (h : token.Scanned) (hother : other.Scanned)
    (heq : ((token :: rest).map dump).flatMap Text.line ++ x =
      ((other :: others).map dump).flatMap Text.line ++ y) :
    token = other ∧
      (rest.map dump).flatMap Text.line ++ x = (others.map dump).flatMap Text.line ++ y := by
  simp only [List.map_cons, List.flatMap_cons, Text.line, List.append_assoc] at heq
  obtain ⟨hsame, hrest⟩ := h.dump_append_inj hother heq
  exact ⟨hsame, List.append_cancel_left hrest⟩

/-- The tokens of a source are recovered from their dumps, with what follows these. -/
theorem Closed.dumps_append_inj {tokens others : List Token} {x y : Text} (h : Closed tokens)
    (hothers : Closed others)
    (heq : (tokens.map dump).flatMap Text.line ++ x = (others.map dump).flatMap Text.line ++ y) :
    tokens = others ∧ x = y := by
  induction h generalizing others with
  | last hscanned hend =>
    cases hothers with
    | last hother hotherEnd => exact (hscanned.dumps_cons_inj hother heq).imp_left (by rintro rfl; rfl)
    | cons hother hotherEnd hrest =>
      obtain ⟨rfl, -⟩ := hscanned.dumps_cons_inj hother heq
      rw [hend] at hotherEnd
      cases hotherEnd
  | cons hscanned hend hrest ih =>
    cases hothers with
    | last hother hotherEnd =>
      obtain ⟨rfl, -⟩ := hscanned.dumps_cons_inj hother heq
      rw [hend] at hotherEnd
      cases hotherEnd
    | cons hother hotherEnd hotherRest =>
      obtain ⟨rfl, hafter⟩ := hscanned.dumps_cons_inj hother heq
      obtain ⟨rfl, hlast⟩ := ih hotherRest hafter
      exact ⟨rfl, hlast⟩

end Token

namespace Scan

/-- The tokens of a source are closed by its end. -/
theorem closed_ofSource (source : Text) : Token.Closed (ofSource source).tokens := by
  have hgenuine (token : Token) :
      token ∈ (Segment.located 1 (segments source)).filterMap Segment.token? →
        token.Scanned ∧ token.isEnd = false :=
    fun hmem => ⟨.inl (tokenClass_of_mem hmem), isEnd_of_mem hmem⟩
  change Token.Closed ((Segment.located 1 (segments source)).filterMap Segment.token? ++
    [Token.endOfSource (1 + source.lineFeeds : Nat)])
  generalize (Segment.located 1 (segments source)).filterMap Segment.token? = tokens at hgenuine
  induction tokens with
  | nil => exact .last (.inr rfl) rfl
  | cons token tokens ih =>
    obtain ⟨hscanned, hend⟩ := hgenuine token List.mem_cons_self
    exact .cons hscanned hend (ih fun other hother => hgenuine other (List.mem_cons_of_mem _ hother))

end Scan

/-- Every token among closed ones is one that scanning yields. -/
theorem Token.Closed.scanned {tokens : List Token} (h : Closed tokens) :
    ∀ token ∈ tokens, token.Scanned := by
  induction h with
  | last hscanned hend => exact List.forall_mem_singleton.mpr hscanned
  | cons hscanned hend hrest ih => exact List.forall_mem_cons.mpr ⟨hscanned, ih⟩

namespace Workbench

/-- The workbench with a setting that shows no tokens. -/
def hideTokens (bench : Workbench) : Workbench :=
  { bench with settings := { bench.settings with printTokens := false } }

variable {bench : Workbench} {writes : List Text}

/-- On a working console a unit writes the same after any lines that were written before. -/
theorem run_showInstead_console (hconsole : bench.console = .working writes) (lines : List Text)
    (kind : UnitKind) (source : Text) :
    ((bench.showInstead lines).run kind source).2.console =
      .working (writes ++ (lines.map Text.line ++
        (({} : Workbench).run kind source).2.console.writes)) := by
  have hwritten : (bench.showInstead lines).console =
      .working (writes ++ lines.map Text.line) := by
    rw [← Console.foldl_writeLine_working, ← hconsole]
    rfl
  obtain ⟨own, halone, hused⟩ := ((Follows.start hwritten).run kind source).bench.console
  have hown : (({} : Workbench).run kind source).2.console.writes = own :=
    congrArg Console.writes halone
  rw [hused, hwritten, hown, ← List.append_assoc]
  rfl

/-- On a working console a unit writes one line for each token before what it writes if no tokens
are shown. -/
theorem exists_writes (hconsole : bench.console = .working writes)
    (hshows : bench.settings.printTokens = true) (kind : UnitKind) (source : Text) :
    ∃ own,
      (bench.run kind source).2.console = .working (writes ++
        (((Scan.ofSource source).tokens.map Token.dump).map Text.line ++ own)) ∧
      (bench.hideTokens.run kind source).2.console = .working (writes ++ own) := by
  have hshown : bench.settings.tokenLines (Scan.ofSource source).tokens =
      (Scan.ofSource source).tokens.map Token.dump := if_pos hshows
  -- Either way the unit is compared with one that shows nothing, after the lines that it shows.
  have hlines (lines : List Text)
      (hrun : (bench.run kind source).2.unset = ((bench.showInstead
        ((Scan.ofSource source).tokens.map Token.dump ++ lines)).run kind source).2)
      (hhidden : (bench.hideTokens.run kind source).2.unset =
        ((bench.showInstead lines).run kind source).2) :
      ∃ own,
        (bench.run kind source).2.console = .working (writes ++
          (((Scan.ofSource source).tokens.map Token.dump).map Text.line ++ own)) ∧
        (bench.hideTokens.run kind source).2.console = .working (writes ++ own) := by
    refine ⟨lines.map Text.line ++ (({} : Workbench).run kind source).2.console.writes, ?_, ?_⟩
    · refine (congrArg Workbench.console hrun).trans ?_
      rw [run_showInstead_console hconsole, List.map_append, List.append_assoc]
    · refine (congrArg Workbench.console hhidden).trans ?_
      rw [run_showInstead_console hconsole]
  rcases kind.rejects_or_reads source with hrejects | ⟨tree, hreads⟩
  · refine hlines [] ?_ ?_
    · rw [List.append_nil, ← hshown]
      exact congrArg Prod.snd (bench.run_unset_of_rejects hrejects)
    · exact congrArg Prod.snd (bench.hideTokens.run_unset_of_rejects hrejects)
  · refine hlines (bench.settings.treeLines tree) ?_ ?_
    · rw [← hshown]
      exact congrArg Prod.snd (bench.run_unset_of_reads hreads)
    · exact congrArg Prod.snd (bench.hideTokens.run_unset_of_reads hreads)

/-- The dump of tokens can be decoded. No token of a source has a line feed in its dump. On a console
that takes every write and never cancels, a unit that shows its tokens writes one line for each of
them, and then exactly what it writes if it does not show them. Splitting these lines at line feeds
gives back the dumps. Two tokens of any sources with the same dump are the same token: they have the
same kind, lexeme, literal and line. And from what is written, with the tokens of a source in front,
the tokens can be told from what follows them, so sources with the same dump have the same
tokens. -/
theorem token_dump_decodable (source other : Text) :
    let tokens := (Scan.ofSource source).tokens
    let others := (Scan.ofSource other).tokens
    (∀ token ∈ tokens, '\n' ∉ token.dump) ∧
    (∀ (bench : Workbench) (kind : UnitKind), bench.settings.printTokens = true →
      bench.console.failAfter = none → bench.console.cancelAfter = none →
      ∃ own,
        (bench.run kind source).2.console.writes =
          bench.console.writes ++ ((tokens.map Token.dump).map Text.line ++ own) ∧
        (bench.hideTokens.run kind source).2.console.writes = bench.console.writes ++ own) ∧
    ((tokens.map Token.dump).flatMap Text.line).splitOn '\n' = tokens.map Token.dump ++ [[]] ∧
    (∀ token ∈ tokens, ∀ mate ∈ others, token.dump = mate.dump → token = mate) ∧
    ∀ x y : Text,
      (tokens.map Token.dump).flatMap Text.line ++ x =
        (others.map Token.dump).flatMap Text.line ++ y → tokens = others ∧ x = y := by
  intro tokens others
  have hclosed := Scan.closed_ofSource source
  have hothers := Scan.closed_ofSource other
  have hdump : ∀ token ∈ tokens, token.dump.lineFeeds = 0 :=
    fun token hmem => (hclosed.scanned token hmem).lineFeeds_dump
  refine ⟨fun token hmem => Text.lineFeeds_eq_zero_iff.mp (hdump token hmem), ?_, ?_, ?_,
    fun x y => hclosed.dumps_append_inj hothers⟩
  · intro bench kind hshows hfails hcancels
    obtain ⟨own, hshown, hhidden⟩ :=
      exists_writes (Console.eq_working hfails hcancels) hshows kind source
    exact ⟨own, congrArg Console.writes hshown, congrArg Console.writes hhidden⟩
  · exact (Text.splitOn_flatMap_line_iff _).mpr (List.forall_mem_map.mpr hdump)
  · intro token hmem mate hmate heq
    exact ((hclosed.scanned token hmem).dump_append_inj (hothers.scanned mate hmate)
      (congrArg (· ++ []) heq)).1

/-- A string with a line feed in it and a text that looks like the end of its lexeme. -/
theorem token_dump_decodable_string :
    let source := "\"\n, Literal: \" + 1".toList
    let token : Token := ⟨.string, "\"\n, Literal: \"".toList, .string "\n, Literal: ".toList, 2⟩
    let bench : Workbench := { settings := { printTokens := true } }
    token ∈ (Scan.ofSource source).tokens ∧ '\n' ∉ token.dump ∧
      (∀ mate ∈ (Scan.ofSource source).tokens, token.dump = mate.dump → token = mate) ∧
      ∃ own, (bench.run .script source).2.console.writes =
        ((Scan.ofSource source).tokens.map Token.dump).map Text.line ++ own := by
  intro source token bench
  have hmem : token ∈ (Scan.ofSource source).tokens := by decide +kernel
  obtain ⟨hlines, hruns, -, hinj, -⟩ := token_dump_decodable source source
  obtain ⟨own, hwrites, -⟩ := hruns bench .script rfl rfl rfl
  exact ⟨hmem, hlines token hmem, hinj token hmem, own, hwrites⟩

end Workbench

end Lox
