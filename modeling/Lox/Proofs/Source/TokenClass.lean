import Lox.Source.Scan

/-!
# Token classes and maximal munch

Which texts belong to which kind of token, and which literal each of them stands for, without
saying how the source is read. A cut is the right first segment of a source: a blank, a comment,
or the longest text of any token class; only where there is no such text is there a fault. A
segmentation cuts the whole source in this way, so that every character belongs to a segment.
-/

namespace Lox

/-- The text of a kind that is always written in the same way. -/
def Kind.symbol? : Kind → Option Text
  | leftParen => some ['(']
  | rightParen => some [')']
  | leftBrace => some ['\x7b']
  | rightBrace => some ['\x7d']
  | comma => some [',']
  | dot => some ['.']
  | minus => some ['-']
  | plus => some ['+']
  | semicolon => some [';']
  | slash => some ['/']
  | star => some ['*']
  | bang => some ['!']
  | bangEqual => some ['!', '=']
  | equal => some ['=']
  | equalEqual => some ['=', '=']
  | greater => some ['>']
  | greaterEqual => some ['>', '=']
  | less => some ['<']
  | lessEqual => some ['<', '=']
  | _ => none

/-- A letter or underscore, and then letters, digits and underscores. -/
def Text.IsWord : Text → Prop
  | [] => False
  | c :: rest => Segment.startsWord c = true ∧ ∀ d ∈ rest, Segment.continuesWord d = true

/-- At least one digit, and nothing else. -/
def Text.IsDigits (text : Text) : Prop := text ≠ [] ∧ ∀ c ∈ text, c.isDigit = true

/-- The text is a number, with the decimal it is written for. -/
inductive Numeral : Text → Decimal → Prop where
  /-- Digits alone. -/
  | whole {digits : Text} (hdigits : digits.IsDigits) :
      Numeral digits (Decimal.ofDigits digits [])
  /-- Digits on both sides of a point. -/
  | point {digits fraction : Text} (hdigits : digits.IsDigits) (hfraction : fraction.IsDigits) :
      Numeral (digits ++ '.' :: fraction) (Decimal.ofDigits digits fraction)

/-- The text belongs to the kind of token, whatever follows it. -/
inductive TokenClass : Kind → Text → Prop where
  /-- One of the fixed texts. -/
  | symbol {kind : Kind} {text : Text} (hsymbol : kind.symbol? = some text) : TokenClass kind text
  /-- A reserved word. -/
  | keyword (word : Keyword) : TokenClass (.keyword word) word.spelling
  /-- A word that is not reserved. -/
  | identifier {text : Text} (hword : text.IsWord)
      (hfree : ∀ word : Keyword, word.spelling ≠ text) : TokenClass .identifier text
  /-- Anything between two quotes but a quote. -/
  | string {body : Text} (hbody : '"' ∉ body) : TokenClass .string ('"' :: body ++ ['"'])
  /-- A number, however large. -/
  | number {text : Text} {value : Decimal} (hnumeral : Numeral text value) :
      TokenClass .number text

/-- The literal that a text of a kind stands for. -/
inductive Denotes : Kind → Text → Literal → Prop where
  /-- A string stands for what is between its quotes. -/
  | string (body : Text) : Denotes .string ('"' :: body ++ ['"']) (.string body)
  /-- A number stands for the double nearest to its decimal. -/
  | number {text : Text} {value : Decimal} {x : Float} (hnumeral : Numeral text value)
      (hvalue : value.toFloat? = some x) : Denotes .number text (.number x)
  /-- Nothing else stands for a literal. -/
  | none {kind : Kind} (text : Text) (hstring : kind ≠ .string) (hnumber : kind ≠ .number) :
      Denotes kind text .none

/-- No longer text of any token class stands at the front of the source. -/
def Longest (text source : Text) : Prop :=
  text <+: source ∧
    ∀ (kind : Kind) (other : Text), TokenClass kind other → other <+: source →
      other.length ≤ text.length

/-- The segment is the right first piece of the source. -/
inductive Cut : Segment → Text → Prop where
  /-- A blank by itself. -/
  | blank {c : Char} (rest : Text) (hblank : c ∈ [' ', '\r', '\t', '\n']) :
      Cut (.blank c) (c :: rest)
  /-- Two slashes and everything before the next line feed. -/
  | comment {body rest : Text} (hbody : '\n' ∉ body) (hrest : ∀ c ∈ rest.head?, c = '\n') :
      Cut (.comment ('/' :: '/' :: body)) ('/' :: '/' :: body ++ rest)
  /-- The longest text of any token class, where no comment begins. -/
  | lexeme {kind : Kind} {literal : Literal} {text source : Text} (hclass : TokenClass kind text)
      (hliteral : Denotes kind text literal) (hlongest : Longest text source)
      (hcomment : ¬ ['/', '/'] <+: source) : Cut (.lexeme kind literal text) source
  /-- The same, if that is a number whose nearest double is infinity. -/
  | overflow {text source : Text} {value : Decimal} (hnumeral : Numeral text value)
      (hvalue : value.toFloat? = none) (hlongest : Longest text source) :
      Cut (.overflow text) source
  /-- A character with which no text of any token class begins here. -/
  | stray {c : Char} {rest : Text} (hblank : c ∉ [' ', '\r', '\t', '\n']) (hquote : c ≠ '"')
      (hnone : ∀ (kind : Kind) (other : Text), TokenClass kind other → ¬ other <+: c :: rest) :
      Cut (.stray c) (c :: rest)
  /-- A quote without another one after it, and the rest of the source. -/
  | unterminated {body : Text} (hbody : '"' ∉ body) :
      Cut (.unterminated ('"' :: body)) ('"' :: body)

/-- The segments are the right pieces of the source, one after the other to its end. -/
inductive Segmentation : Text → List Segment → Prop where
  /-- Nothing has no segments. -/
  | done : Segmentation [] []
  /-- A first segment, and the segments of what is left. -/
  | cut {segment : Segment} {rest : Text} {segments : List Segment}
      (hcut : Cut segment (segment.text ++ rest)) (hrest : Segmentation rest segments) :
      Segmentation (segment.text ++ rest) (segment :: segments)

/-- The segments joined are the source. -/
theorem Segmentation.flatMap_text {source : Text} {segments : List Segment}
    (h : Segmentation source segments) : segments.flatMap Segment.text = source := by
  induction h with
  | done => rfl
  | cut hcut hrest ih => rw [List.flatMap_cons, ih]

/-- Keywords are words. -/
theorem Keyword.spelling_isWord (word : Keyword) : Text.IsWord word.spelling := by
  cases word <;> exact ⟨by decide, List.all_eq_true.mp (by decide)⟩

/-- Every word belongs to a token class, reserved or not. -/
theorem Text.IsWord.tokenClass {text : Text} (h : text.IsWord) : ∃ kind, TokenClass kind text := by
  by_cases hfree : ∀ word : Keyword, word.spelling ≠ text
  · exact ⟨.identifier, .identifier h hfree⟩
  · obtain ⟨word, hword⟩ := Classical.not_forall.mp hfree
    rw [Classical.not_not] at hword
    rw [← hword]
    exact ⟨.keyword word, .keyword word⟩

/-- A word goes on with every character that continues words. -/
theorem Text.IsWord.concat {text : Text} {c : Char} (h : text.IsWord)
    (hc : Segment.continuesWord c = true) : Text.IsWord (text ++ [c]) := by
  cases text with
  | nil => exact h.elim
  | cons first others =>
    refine ⟨h.1, fun d hd => ?_⟩
    rcases List.mem_append.mp hd with hd | hd
    · exact h.2 d hd
    · rw [List.mem_singleton.mp hd]
      exact hc

/-- Digits go on with every digit. -/
theorem Text.IsDigits.concat {text : Text} {c : Char} (h : text.IsDigits)
    (hc : c.isDigit = true) : Text.IsDigits (text ++ [c]) := by
  refine ⟨by simp, fun d hd => ?_⟩
  rcases List.mem_append.mp hd with hd | hd
  · exact h.2 d hd
  · rw [List.mem_singleton.mp hd]
    exact hc

/-- A number begins with a digit. -/
theorem Numeral.first {text : Text} {value : Decimal} (h : Numeral text value) :
    ∃ c rest, text = c :: rest ∧ c.isDigit = true := by
  cases h with
  | whole hdigits =>
    obtain ⟨c, rest, rfl⟩ := List.exists_cons_of_ne_nil hdigits.1
    exact ⟨c, rest, rfl, hdigits.2 c List.mem_cons_self⟩
  | point hdigits hfraction =>
    obtain ⟨c, rest, rfl⟩ := List.exists_cons_of_ne_nil hdigits.1
    exact ⟨c, _, rfl, hdigits.2 c List.mem_cons_self⟩

/-- No token class has an empty text. -/
theorem TokenClass.ne_nil {kind : Kind} {text : Text} (h : TokenClass kind text) : text ≠ [] := by
  cases h with
  | symbol hsymbol => cases kind <;> cases hsymbol <;> exact List.cons_ne_nil _ _
  | keyword word => cases word <;> exact List.cons_ne_nil _ _
  | identifier hword hfree =>
    intro hnil
    rw [hnil] at hword
    exact hword
  | string hbody => exact List.cons_ne_nil _ _
  | number hnumeral =>
    obtain ⟨c, rest, rfl, -⟩ := hnumeral.first
    exact List.cons_ne_nil c rest

/-- There is no quote between the quotes of a string. -/
theorem TokenClass.quote_not_mem {text body : Text} (h : TokenClass .string text)
    (htext : text = '"' :: body ++ ['"']) : '"' ∉ body := by
  cases h with
  | symbol hsymbol => cases hsymbol
  | @string inner hinner =>
    have heq : inner = body := List.append_cancel_right (List.cons.inj htext).2
    rw [← heq]
    exact hinner

/-- A text of a token class stands for a literal, unless it is a number that is too large. -/
theorem TokenClass.denotes_or_overflow {kind : Kind} {text : Text} (h : TokenClass kind text) :
    (∃ literal, Denotes kind text literal) ∨
      ∃ value, Numeral text value ∧ value.toFloat? = none := by
  cases h with
  | symbol hsymbol =>
    refine .inl ⟨.none, .none text ?_ ?_⟩
    · rintro rfl
      cases hsymbol
    · rintro rfl
      cases hsymbol
  | keyword word => exact .inl ⟨.none, .none _ Kind.noConfusion Kind.noConfusion⟩
  | identifier hword hfree => exact .inl ⟨.none, .none _ Kind.noConfusion Kind.noConfusion⟩
  | @string body hbody => exact .inl ⟨.string body, .string body⟩
  | @number _ value hnumeral =>
    cases hvalue : value.toFloat? with
    | some x => exact .inl ⟨.number x, .number hnumeral hvalue⟩
    | none => exact .inr ⟨value, hnumeral, hvalue⟩

/-- Nothing that makes a text of a token class longer stands after a longest one. -/
theorem Longest.not_extended {kind : Kind} {text more extension : Text}
    (h : Longest text (text ++ more)) (hclass : TokenClass kind (text ++ extension))
    (hfront : extension <+: more) : extension = [] := by
  have hle := h.2 kind (text ++ extension) hclass (List.prefix_append_right_inj text |>.mpr hfront)
  rw [List.length_append] at hle
  exact List.eq_nil_of_length_eq_zero (by omega)

/-- No character that continues a longest text stands after it. -/
theorem Longest.next_eq_false {p : Char → Bool} {text more : Text} (h : Longest text (text ++ more))
    (hclass : ∀ c, p c = true → ∃ kind, TokenClass kind (text ++ [c])) :
    ∀ c ∈ more.head?, p c = false := by
  intro c hc
  rw [Bool.eq_false_iff]
  intro hp
  obtain ⟨kind, hkind⟩ := hclass c hp
  have hnil := h.not_extended hkind (List.singleton_prefix_iff_head?_eq_some.mpr hc)
  exact List.cons_ne_nil c [] hnil

/-- If any text of a token class stands at the front, there is a longest one. -/
theorem exists_longest {source : Text} {kind : Kind} {text : Text} (hclass : TokenClass kind text)
    (hfront : text <+: source) : ∃ kind text, TokenClass kind text ∧ Longest text source := by
  induction hgap : source.length - text.length using Nat.strongRecOn generalizing kind text with
  | ind gap ih =>
    by_cases hlongest : Longest text source
    · exact ⟨kind, text, hclass, hlongest⟩
    · -- Some other text of a class is longer, and nearer to the length of the source.
      have hother : ∃ (kind : Kind) (other : Text), TokenClass kind other ∧ other <+: source ∧
          text.length < other.length := by
        apply Classical.byContradiction
        intro hnone
        refine hlongest ⟨hfront, fun kind other hother hpre => ?_⟩
        apply Nat.le_of_not_lt
        intro hlt
        exact hnone ⟨kind, other, hother, hpre, hlt⟩
      obtain ⟨otherKind, other, hotherClass, hotherFront, hlt⟩ := hother
      have hle := hotherFront.length_le
      exact ih (source.length - other.length) (by omega) hotherClass hotherFront rfl

/-- A comment is cut where two slashes stand at the front. -/
theorem exists_cut_comment (text : Text) : ∃ segment, Cut segment ('/' :: '/' :: text) := by
  have hsplit : text.takeWhile (· != '\n') ++ text.dropWhile (· != '\n') = text :=
    List.takeWhile_append_dropWhile
  have hbody : '\n' ∉ text.takeWhile (· != '\n') := by
    intro hmem
    have hall := List.all_eq_true.mp (List.all_takeWhile (l := text) (p := (· != '\n'))) _ hmem
    exact absurd hall (by decide)
  have hrest : ∀ c ∈ (text.dropWhile (· != '\n')).head?, c = '\n' := by
    intro c hc
    have hnot := List.head?_dropWhile_not (· != '\n') text
    rw [Option.mem_def.mp hc] at hnot
    simpa using hnot
  rw [← hsplit]
  exact ⟨_, .comment hbody hrest⟩

/-- Every source that is not empty has a right first segment. -/
theorem exists_cut (c : Char) (rest : Text) : ∃ segment, Cut segment (c :: rest) := by
  by_cases hblank : c ∈ [' ', '\r', '\t', '\n']
  · exact ⟨_, .blank rest hblank⟩
  by_cases hcomment : ['/', '/'] <+: c :: rest
  · obtain ⟨text, htext⟩ := hcomment
    rw [← htext]
    exact exists_cut_comment text
  by_cases hclass : ∃ (kind : Kind) (text : Text), TokenClass kind text ∧ text <+: c :: rest
  · obtain ⟨kind, text, hclass, hfront⟩ := hclass
    obtain ⟨kind, text, hclass, hlongest⟩ := exists_longest hclass hfront
    rcases hclass.denotes_or_overflow with ⟨literal, hliteral⟩ | ⟨value, hnumeral, hvalue⟩
    · exact ⟨_, .lexeme hclass hliteral hlongest hcomment⟩
    · exact ⟨_, .overflow hnumeral hvalue hlongest⟩
  have hnone : ∀ (kind : Kind) (other : Text), TokenClass kind other → ¬ other <+: c :: rest :=
    fun kind other hother hfront => hclass ⟨kind, other, hother, hfront⟩
  by_cases hquote : c = '"'
  · -- A second quote would close a string, and strings are a token class.
    have hbody : '"' ∉ rest := by
      intro hmem
      obtain ⟨body, more, rfl, hbody⟩ := List.eq_append_cons_of_mem hmem
      refine hnone .string _ (.string hbody) ⟨more, ?_⟩
      rw [hquote, List.append_assoc]
      rfl
    rw [hquote]
    exact ⟨_, .unterminated hbody⟩
  · exact ⟨_, .stray hblank hquote hnone⟩

/-- A right first segment is a front part of the source, and not an empty one. -/
theorem Cut.text_append {segment : Segment} {source : Text} (h : Cut segment source) :
    segment.text ≠ [] ∧ ∃ rest, source = segment.text ++ rest := by
  cases h with
  | blank rest hblank => exact ⟨List.cons_ne_nil _ _, rest, rfl⟩
  | @comment body rest hbody hrest => exact ⟨List.cons_ne_nil _ _, rest, rfl⟩
  | lexeme hclass hliteral hlongest hcomment =>
    obtain ⟨rest, hrest⟩ := hlongest.1
    exact ⟨hclass.ne_nil, rest, hrest.symm⟩
  | overflow hnumeral hvalue hlongest =>
    obtain ⟨rest, hrest⟩ := hlongest.1
    exact ⟨(TokenClass.number hnumeral).ne_nil, rest, hrest.symm⟩
  | @stray c rest hblank hquote hnone => exact ⟨List.cons_ne_nil _ _, rest, rfl⟩
  | unterminated hbody => exact ⟨List.cons_ne_nil _ _, [], by rw [List.append_nil]; rfl⟩

end Lox
