import Lox.Proofs.Number.Sign
import Lox.Proofs.Pipeline
import Lox.Proofs.Reading.Unlined
import Lox.Proofs.Source.Rescan
import Lox.Proofs.Text.Quoted

/-!
# What trees are written with

Both notations of trees are made of atoms, with delimiters between them: lexemes of tokens, quoted
texts and one sign that is no token. An atom ends where a delimiter stands, so atoms are told apart
even if more text follows. A lexeme belongs to one token only, but for its line, since it would be
scanned as that token. All this holds of trees that are read from a source, as their tokens are
those of the source and their numbers are finite and not negative.
-/

namespace Lox

/-- The token is one that a source can have: its text belongs to its kind and stands for its
literal. -/
def Token.Genuine (token : Token) : Prop :=
  TokenClass token.kind token.lexeme ∧ Denotes token.kind token.lexeme token.literal

/-- A source of the lexeme of a genuine token and nothing else begins with that token. -/
theorem Token.Genuine.first_eq {token : Token} (h : token.Genuine) {c : Char} {rest : Text}
    (hlexeme : token.lexeme = c :: rest) :
    Segment.first c rest = .lexeme token.kind token.literal token.lexeme := by
  have hcut : Cut _ (token.lexeme ++ []) := h.1.cut h.2 fun c hc => by cases hc
  rw [List.append_nil] at hcut
  exact Segment.first_of_cut hcut hlexeme

/-- Genuine tokens with the same lexeme are the same, but for their lines. -/
theorem Token.Genuine.unlined_eq {token other : Token} (htoken : token.Genuine)
    (hother : other.Genuine) (h : token.lexeme = other.lexeme) : token.unlined = other.unlined := by
  obtain ⟨c, rest, hlexeme⟩ := List.exists_cons_of_ne_nil htoken.1.ne_nil
  have hsame := (htoken.first_eq hlexeme).symm.trans (hother.first_eq (h ▸ hlexeme))
  obtain ⟨hkind, hliteral, -⟩ := Segment.lexeme.inj hsame
  simp only [Token.unlined, hkind, hliteral, h]

/-- A tilde is the lexeme of no token. -/
theorem Token.Genuine.lexeme_ne_tilde {token : Token} (h : token.Genuine) :
    token.lexeme ≠ ['~'] := by
  intro hlexeme
  have hstray : Segment.first '~' [] = .stray '~' := by decide
  have hfirst := h.first_eq hlexeme
  rw [hstray] at hfirst
  cases hfirst

/-- What a notation puts between atoms or around them, and the line feed. -/
def Text.delimiters : Text := [' ', '(', ')', '"', '\n']

/-- A text without delimiters. -/
def Text.IsPlain (text : Text) : Prop :=
  text ≠ [] ∧ ∀ c ∈ text, c ∉ delimiters

/-- A delimiter that may follow an atom comes first, or nothing at all. -/
def Text.Stops (text : Text) : Prop := ∀ c ∈ text.head?, c ∈ [' ', ')']

/-- A delimiter stops an atom, whatever follows it. -/
theorem Text.stops_cons {c : Char} (h : c ∈ [' ', ')']) (rest : Text) : Stops (c :: rest) := by
  intro d hd
  cases hd
  exact h

/-- Only strings and parentheses have lexemes with delimiters in them. -/
theorem TokenClass.isPlain {kind : Kind} {text : Text} (h : TokenClass kind text)
    (hkind : kind ∉ [.string, .leftParen, .rightParen]) : text.IsPlain := by
  refine ⟨h.ne_nil, fun c hc hmem => ?_⟩
  have hspecial : Text.delimiters.all (fun d => decide (d ∈ Segment.special)) := by
    decide
  have hc' : c ∈ Segment.special := of_decide_eq_true (List.all_eq_true.mp hspecial c hmem)
  cases h with
  | symbol hsymbol =>
    have hall : text.all (fun d => decide (d ∉ Text.delimiters)) = true := by
      cases kind <;> cases hsymbol
      case leftParen => exact absurd (by decide) hkind
      case rightParen => exact absurd (by decide) hkind
      all_goals decide
    exact of_decide_eq_true (List.all_eq_true.mp hall c hc) hmem
  | keyword word => exact word.spelling_isWord.not_special c hc hc'
  | identifier hword hfree => exact hword.not_special c hc hc'
  | string hbody => exact hkind (by decide)
  | number hnumeral =>
    rcases hnumeral.not_special c hc with rfl | hnot
    · exact absurd hmem (by decide)
    · exact hnot hc'

/-- Plain texts before delimiters are told apart. -/
theorem Text.IsPlain.append_inj {text other after later : Text} (htext : text.IsPlain)
    (hother : other.IsPlain) (hafter : after.Stops) (hlater : later.Stops)
    (h : text ++ after = other ++ later) : text = other ∧ after = later := by
  have hplain {front : Text} (hfront : front.IsPlain) :
      ∀ c ∈ front, decide (c ∉ delimiters) = true :=
    fun c hc => decide_eq_true (hfront.2 c hc)
  have hstops {rest : Text} (hrest : rest.Stops) :
      ∀ c ∈ rest.head?, decide (c ∉ delimiters) = false := by
    intro c hc
    have hall : [' ', ')'].all (fun d => decide (d ∈ delimiters)) = true := by decide
    rw [decide_eq_false_iff_not, Classical.not_not]
    exact of_decide_eq_true (List.all_eq_true.mp hall c (hrest c hc))
  exact append_inj_of_class (hplain htext) (hplain hother) (hstops hafter) (hstops hlater) h

/-- What a notation writes between its delimiters. -/
inductive Atom where
  /-- The lexeme of a token. -/
  | lexeme (token : Token)
  /-- A quoted text. -/
  | quoted (text : Text)
  /-- The sign that tells unary minus from subtraction. -/
  | tilde
  /-- What is shown where no value is held. -/
  | absent

namespace Atom

/-- How an atom is written. -/
def text : Atom → Text
  | lexeme token => token.lexeme
  | quoted text => Quoted.text text
  | tilde => ['~']
  | absent => Value.absent

/-- An atom without the line of its token. -/
def unlined : Atom → Atom
  | lexeme token => lexeme token.unlined
  | quoted text => quoted text
  | tilde => tilde
  | absent => absent

/-- The atom can stand in the notation of a tree that was read: its token, if it has one, is genuine
and has no delimiters in it. -/
def Legible : Atom → Prop
  | lexeme token => token.Genuine ∧ token.kind ∉ [.string, .leftParen, .rightParen]
  | quoted _ => True
  | tilde => True
  | absent => False

/-- An atom is quoted or has no delimiters in it. -/
theorem Legible.quoted_or_isPlain {atom : Atom} (h : atom.Legible) :
    (∃ text, atom = quoted text) ∨ atom.text.IsPlain := by
  cases atom with
  | lexeme token => exact .inr (h.1.1.isPlain h.2)
  | quoted text => exact .inl ⟨text, rfl⟩
  | tilde => exact .inr ⟨List.cons_ne_nil _ _, by simp [text, Text.delimiters]⟩
  | absent => exact h.elim

/-- There is no line feed in an atom. -/
theorem Legible.lineFeed_not_mem {atom : Atom} (h : atom.Legible) : '\n' ∉ atom.text := by
  intro hmem
  rcases h.quoted_or_isPlain with ⟨text, rfl⟩ | hplain
  · exact absurd (Quoted.isPrintable_of_mem_text hmem) (by decide)
  · exact hplain.2 '\n' hmem (by decide)

/-- No atom begins with a parenthesis. -/
theorem Legible.append_ne_cons {atom : Atom} (h : atom.Legible) (after rest : Text) :
    atom.text ++ after ≠ '(' :: rest := by
  intro heq
  rcases h.quoted_or_isPlain with ⟨text, rfl⟩ | hplain
  · cases heq
  · obtain ⟨c, others, htext⟩ := List.exists_cons_of_ne_nil hplain.1
    rw [htext] at heq
    have hc : c = '(' := (List.cons.inj heq).1
    exact hplain.2 c (by rw [htext]; exact List.mem_cons_self) (by rw [hc]; decide)

/-- A plain text does not begin like a quoted one. -/
theorem quoted_append_ne {text plain after later : Text} (h : plain.IsPlain) :
    Quoted.text text ++ after ≠ plain ++ later := by
  intro heq
  obtain ⟨c, others, rfl⟩ := List.exists_cons_of_ne_nil h.1
  have hc : '"' = c := (List.cons.inj heq).1
  exact h.2 c List.mem_cons_self (by rw [← hc]; decide)

/-- Atoms that are written in the same way are the same, but for the lines of tokens. -/
theorem Legible.unlined_eq {atom other : Atom} (hatom : atom.Legible) (hother : other.Legible)
    (hplain : atom.text.IsPlain) (h : atom.text = other.text) : atom.unlined = other.unlined := by
  cases atom with
  | lexeme token =>
    cases other with
    | lexeme mate => exact congrArg lexeme (hatom.1.unlined_eq hother.1 h)
    | quoted text => exact absurd (congrArg (· ++ []) h.symm) (quoted_append_ne hplain)
    | tilde => exact absurd h hatom.1.lexeme_ne_tilde
    | absent => exact hother.elim
  | quoted text => exact absurd (congrArg (· ++ []) rfl) (quoted_append_ne hplain)
  | tilde =>
    cases other with
    | lexeme mate => exact absurd h.symm hother.1.lexeme_ne_tilde
    | quoted text => exact absurd (congrArg (· ++ []) h.symm) (quoted_append_ne hplain)
    | tilde => rfl
    | absent => exact hother.elim
  | absent => exact hatom.elim

/-- Atoms before delimiters are told apart, but for the lines of tokens. -/
theorem Legible.append_inj {atom other : Atom} {after later : Text} (hatom : atom.Legible)
    (hother : other.Legible) (hafter : after.Stops) (hlater : later.Stops)
    (h : atom.text ++ after = other.text ++ later) :
    atom.unlined = other.unlined ∧ after = later := by
  rcases hatom.quoted_or_isPlain with ⟨text, rfl⟩ | hplain
  · rcases hother.quoted_or_isPlain with ⟨mate, rfl⟩ | hotherPlain
    · obtain ⟨rfl, hrest⟩ := Quoted.text_append_inj h
      exact ⟨rfl, hrest⟩
    · exact absurd h (quoted_append_ne hotherPlain)
  · rcases hother.quoted_or_isPlain with ⟨mate, rfl⟩ | hotherPlain
    · exact absurd h.symm (quoted_append_ne hplain)
    · obtain ⟨htext, hrest⟩ := hplain.append_inj hotherPlain hafter hlater h
      exact ⟨hatom.unlined_eq hother hplain htext, hrest⟩

end Atom

/-- A unary operator can stand in a notation. -/
theorem Token.Genuine.unary_legible {operator : Token} (h : operator.Genuine)
    (hkind : operator.kind.isUnary = true) : (Atom.lexeme operator).Legible :=
  ⟨h, by cases hoperator : operator.kind <;> simp_all [Kind.isUnary]⟩

/-- A binary operator can stand in a notation. -/
theorem Token.Genuine.binary_legible {operator : Token} (h : operator.Genuine)
    (hkind : operator.kind.level?.isSome) : (Atom.lexeme operator).Legible :=
  ⟨h, by cases hoperator : operator.kind <;> simp_all [Kind.level?]⟩

/-- A name can stand in a notation. -/
theorem Token.Genuine.name_legible {name : Token} (h : name.Genuine)
    (hkind : name.kind = .identifier) : (Atom.lexeme name).Legible :=
  ⟨h, by simp [hkind]⟩

/-- The token of a semicolon. -/
def Token.semicolon : Token := ⟨.semicolon, [';'], .none, 1⟩

/-- A semicolon can stand in a notation. -/
theorem Token.semicolon_legible : (Atom.lexeme semicolon).Legible :=
  ⟨⟨.symbol rfl, .none _ nofun nofun⟩, by decide⟩

/-- The token of a keyword. -/
def Keyword.token (word : Keyword) : Token := ⟨.keyword word, word.spelling, .none, 1⟩

/-- A keyword can stand in a notation. -/
theorem Keyword.atom_legible (word : Keyword) : (Atom.lexeme word.token).Legible :=
  ⟨⟨.keyword word, .none _ nofun nofun⟩, by simp [token]⟩

namespace Value

/-- What shows a value. -/
def atom : Value → Atom
  | string s => .quoted s
  | value => .lexeme value.token

/-- What shows an optional value. -/
def atomOf : Option Value → Atom
  | none => .absent
  | some value => value.atom

/-- The dump of a value is its atom. -/
theorem text_atomOf (value : Option Value) : (atomOf value).text = dumpOf value := by
  rcases value with _ | _ | (_ | _) | x | s <;> rfl

/-- The value can be written in a source, which has no sign and no infinity. -/
def Legible : Value → Prop
  | number x => Binary64.IsMagnitude x
  | _ => True

/-- The atom of such a value is a keyword, a number of the source or a quoted text. -/
theorem Legible.atom {value : Value} (h : value.Legible) : value.atom.Legible := by
  cases value with
  | nil => exact Keyword.nilWord.atom_legible
  | bool b => cases b <;> exact Keyword.atom_legible _
  | number x =>
    obtain ⟨d, hnumeral, hvalue⟩ := numeral_layout_text h
    exact ⟨⟨.number hnumeral, .number hnumeral hvalue⟩, by simp [token]⟩
  | string s => trivial

end Value

/-- The expression without parts that an atom shows. -/
def Atom.leaf? : Atom → Option Expr
  | lexeme token =>
    if token.kind = .identifier then some (.reference token)
    else token.value?.map fun value => .literal (some value)
  | quoted text => some (.literal (some (.string text)))
  | tilde => none
  | absent => none

/-- The atom of a value shows this value. -/
@[simp] theorem Value.leaf?_atom (value : Value) :
    value.atom.unlined.leaf? = some (.literal (some value)) := by
  rcases value with _ | (_ | _) | x | s <;> rfl

/-- The atom of a name shows this name. -/
theorem Token.leaf?_of_identifier {name : Token} (h : name.kind = .identifier) :
    (Atom.lexeme name).leaf? = some (.reference name) := if_pos h

/-- The value of a genuine token can be written in a source. -/
theorem Token.Genuine.value_legible {token : Token} {value : Value} (h : token.Genuine)
    (hvalue : token.value? = some value) : value.Legible := by
  cases value with
  | number x =>
    obtain ⟨kind, lexeme, literal, line⟩ := token
    cases h.2 with
    | string body => cases hvalue
    | number hnumeral hfloat =>
      cases hvalue
      exact Binary64.isMagnitude_of_toFloat? hfloat
    | none text hstring hnumber =>
      simp only [value?] at hvalue
      split at hvalue <;> cases hvalue
  | _ => trivial

/-- The tree can be read from a source: its tokens are genuine ones in their places, and its values
can be written. -/
def Expr.Legible : Expr → Prop
  | literal value => ∃ held, value = some held ∧ held.Legible
  | grouping inner => inner.Legible
  | unary operator operand => operator.kind.isUnary = true ∧ operator.Genuine ∧ operand.Legible
  | binary left operator right =>
    left.Legible ∧ operator.kind.level?.isSome ∧ operator.Genuine ∧ right.Legible
  | reference name => name.kind = .identifier ∧ name.Genuine

/-- The statement can be read from a source. -/
def Stmt.Legible : Stmt → Prop
  | expression value => value.Legible
  | print value => value.Legible
  | declaration name initializer =>
    name.kind = .identifier ∧ name.Genuine ∧ ∀ value ∈ initializer, value.Legible

/-- What genuine tokens derive can be read from a source. -/
theorem Derives.legible {layer : Layer} {tree : Expr} {tokens : List Token}
    (h : Derives layer tree tokens) (hgenuine : ∀ token ∈ tokens, token.Genuine) :
    tree.Legible := by
  induction h with
  | literal hvalue => exact ⟨_, rfl, (hgenuine _ List.mem_cons_self).value_legible hvalue⟩
  | reference hname => exact ⟨hname, hgenuine _ List.mem_cons_self⟩
  | grouping hopening hinner hclosing ih =>
    exact ih fun token hmem => hgenuine token (by simp [hmem])
  | primary h ih => exact ih hgenuine
  | unary hoperator hoperand ih =>
    rw [List.forall_mem_cons] at hgenuine
    exact ⟨hoperator, hgenuine.1, ih hgenuine.2⟩
  | operand h ih => exact ih hgenuine
  | @chain level _ _ _ _ _ hleft hoperator hright ihleft ihright =>
    rw [List.forall_mem_append, List.forall_mem_cons] at hgenuine
    have hlevel := (level.has_iff _).mp hoperator
    exact ⟨ihleft hgenuine.1, Option.isSome_of_eq_some hlevel, hgenuine.2.1, ihright hgenuine.2.2⟩

/-- A statement that genuine tokens derive can be read from a source. -/
theorem DerivesStatement.legible {statement : Stmt} {tokens : List Token}
    (h : DerivesStatement statement tokens) (hgenuine : ∀ token ∈ tokens, token.Genuine) :
    statement.Legible := by
  cases h with
  | expression hvalue => exact hvalue.legible hgenuine
  | print hword hvalue =>
    exact hvalue.legible fun token hmem => hgenuine token (List.mem_cons_of_mem _ hmem)
  | declaration hword hname => exact ⟨hname, hgenuine _ (by simp), nofun⟩
  | definition hword hname hsign hvalue =>
    refine ⟨hname, hgenuine _ (by simp), fun value hmem => ?_⟩
    cases hmem
    exact hvalue.legible fun token hmem => hgenuine token (by simp [hmem])

/-- The statements that genuine tokens derive can be read from a source. -/
theorem DerivesProgram.legible {implicit : Bool} {statements : List Stmt} {tokens : List Token}
    (h : DerivesProgram implicit statements tokens)
    (hgenuine : ∀ token ∈ tokens, token.Genuine) : ∀ statement ∈ statements, statement.Legible := by
  induction h with
  | empty => exact List.forall_mem_nil _
  | closed hstatement hsemicolon hothers ih =>
    rw [List.forall_mem_append, List.forall_mem_cons] at hgenuine
    rw [List.forall_mem_cons]
    exact ⟨hstatement.legible hgenuine.1, ih hgenuine.2.2⟩
  | unclosed himplicit hstatement =>
    rw [List.forall_mem_singleton]
    exact hstatement.legible hgenuine

deriving instance DecidableEq for ProgramReading

namespace Text

/-- The source is an expression without any fault, and this is its tree. -/
def ReadsAsExpression (source : Text) (options : ReadingOptions) (tree : Expr) : Prop :=
  (Scan.ofSource source).faults = [] ∧
    (Parser.ofTokens options (Scan.ofSource source).tokens).map
      (fun parser => parser.expression.1) = .ok (.ok tree)

/-- The source is a program without any fault, and these are its statements. -/
def ReadsAsProgram (source : Text) (options : ReadingOptions) (statements : List Stmt) : Prop :=
  (Scan.ofSource source).faults = [] ∧
    (Parser.ofTokens options (Scan.ofSource source).tokens).map
      (fun parser => parser.program.1) = .ok ⟨statements, []⟩

instance (source : Text) (options : ReadingOptions) (tree : Expr) :
    Decidable (source.ReadsAsExpression options tree) :=
  inferInstanceAs (Decidable (_ ∧ _))

instance (source : Text) (options : ReadingOptions) (statements : List Stmt) :
    Decidable (source.ReadsAsProgram options statements) :=
  inferInstanceAs (Decidable (_ ∧ _))

variable {source : Text} {options : ReadingOptions}

/-- The tree of a source is legible. -/
theorem ReadsAsExpression.legible {tree : Expr} (h : source.ReadsAsExpression options tree) :
    tree.Legible := by
  have hderives := (Parser.ofTokens_expression_iff options rfl
    (fun _ => Scan.isEnd_of_mem) tree).mp h.2
  exact hderives.1.legible fun _ => Scan.tokenClass_of_mem

/-- The statements of a source are legible. -/
theorem ReadsAsProgram.legible {statements : List Stmt}
    (h : source.ReadsAsProgram options statements) :
    ∀ statement ∈ statements, statement.Legible := by
  have hderives := (Parser.ofTokens_program_iff options rfl
    (fun _ => Scan.isEnd_of_mem) statements).mp h.2
  exact hderives.1.legible fun _ => Scan.tokenClass_of_mem

end Text

/-- Lists have the same parts of one kind exactly if they have the same parts of another, where that
holds of all their elements. -/
theorem map_eq_map_iff {α β γ : Type} {f : α → β} {g : α → γ} {xs ys : List α}
    (h : ∀ x ∈ xs, ∀ y ∈ ys, (f x = f y ↔ g x = g y)) :
    xs.map f = ys.map f ↔ xs.map g = ys.map g := by
  induction xs generalizing ys with
  | nil => simp only [List.map_nil, List.nil_eq, List.map_eq_nil_iff]
  | cons x xs ih =>
    cases ys with
    | nil => simp only [List.map_cons, List.map_nil, reduceCtorEq]
    | cons y ys =>
      simp only [List.map_cons, List.cons.injEq]
      rw [h x List.mem_cons_self y List.mem_cons_self]
      refine and_congr_right fun _ => ih fun x hx y hy => ?_
      exact h x (List.mem_cons_of_mem _ hx) y (List.mem_cons_of_mem _ hy)

end Lox
