import Lox.Proofs.Source.Tokenisation

/-!
# Lexemes scan to themselves

Whatever stood around a lexeme in its source, its text belongs to its token class. Texts of token
classes have no blanks in them, but for strings, and a string is over at its second quote. So before
a blank, or at the end, no text of any class is longer than a lexeme that stands there. Lexemes that
are written down again with blanks between them are therefore cut apart at the blanks, and become
the same tokens, but for their lines.
-/

namespace Lox

/-- The text is made of blanks and not empty. -/
def Text.Separates (text : Text) : Prop := text ≠ [] ∧ ∀ c ∈ text, c ∈ [' ', '\r', '\t', '\n']

/-- A blank comes first, or nothing at all. -/
def Text.StartsBlank (text : Text) : Prop := ∀ c ∈ text.head?, c ∈ [' ', '\r', '\t', '\n']

/-- The parts in order, with a separator between neighbours that may differ from place to place. -/
def Text.joinBy (separator : Nat → Text) : List Text → Text
  | [] => []
  | [part] => part
  | part :: parts => part ++ separator 0 ++ joinBy (fun place => separator (place + 1)) parts

/-- A separator begins with a blank, whatever follows it. -/
theorem Text.Separates.startsBlank {text : Text} (h : text.Separates) (more : Text) :
    StartsBlank (text ++ more) := by
  obtain ⟨first, others, rfl⟩ := List.exists_cons_of_ne_nil h.1
  intro c hc
  cases hc
  exact h.2 _ List.mem_cons_self

/-- No character of a word is special. -/
theorem Text.IsWord.not_special {text : Text} (h : text.IsWord) :
    ∀ c ∈ text, c ∉ Segment.special := by
  cases text with
  | nil => exact h.elim
  | cons first others =>
    rw [List.forall_mem_cons]
    refine ⟨Segment.not_special_of_startsWord h.1, fun c hc => ?_⟩
    rcases Bool.or_eq_true_iff.mp (h.2 c hc) with hstarts | hdigit
    · exact Segment.not_special_of_startsWord hstarts
    · exact Segment.not_special_of_isDigit hdigit

/-- The characters of a number are a point or not special. -/
theorem Numeral.not_special {text : Text} {value : Decimal} (h : Numeral text value) :
    ∀ c ∈ text, c = '.' ∨ c ∉ Segment.special := by
  cases h with
  | whole hdigits => exact fun c hc => .inr (Segment.not_special_of_isDigit (hdigits.2 c hc))
  | point hdigits hfraction =>
    rw [List.forall_mem_append, List.forall_mem_cons]
    exact ⟨fun c hc => .inr (Segment.not_special_of_isDigit (hdigits.2 c hc)), .inl rfl,
      fun c hc => .inr (Segment.not_special_of_isDigit (hfraction.2 c hc))⟩

namespace TokenClass

variable {kind : Kind} {literal : Literal} {text more : Text}

/-- A text of a token class with a blank or a quote in it is a string. -/
theorem string_of_mem (h : TokenClass kind text) {c : Char} (hmem : c ∈ text)
    (hc : c ∈ [' ', '\r', '\t', '\n', '"']) :
    kind = .string ∧ ∃ body, '"' ∉ body ∧ text = '"' :: body ++ ['"'] := by
  have hspecial : c ∈ Segment.special := by
    have hall : [' ', '\r', '\t', '\n', '"'].all (fun d => decide (d ∈ Segment.special)) := by
      decide
    exact of_decide_eq_true (List.all_eq_true.mp hall c hc)
  cases h with
  | symbol hsymbol =>
    have hall : text.all (fun d => decide (d ∉ [' ', '\r', '\t', '\n', '"'])) = true := by
      cases kind <;> cases hsymbol <;> decide
    exact absurd hc (of_decide_eq_true (List.all_eq_true.mp hall c hmem))
  | keyword word => exact absurd hspecial (word.spelling_isWord.not_special c hmem)
  | identifier hword hfree => exact absurd hspecial (hword.not_special c hmem)
  | @string body hbody => exact ⟨rfl, body, hbody, rfl⟩
  | number hnumeral =>
    rcases hnumeral.not_special c hmem with rfl | hnot
    · exact absurd hc (by decide)
    · exact absurd hspecial hnot

/-- Nothing but a single slash begins with a slash. -/
theorem eq_nil_of_slash (h : TokenClass kind ('/' :: more)) : more = [] := by
  generalize htext : '/' :: more = text at h
  cases h with
  | symbol hsymbol =>
    cases kind <;> cases hsymbol <;> cases htext
    rfl
  | keyword word => cases word <;> cases htext
  | identifier hword hfree =>
    rw [← htext] at hword
    exact absurd hword.1 (by decide)
  | string hbody => cases htext
  | number hnumeral =>
    obtain ⟨c, rest, rfl, hdigit⟩ := hnumeral.first
    rw [← (List.cons.inj htext).1] at hdigit
    exact absurd hdigit (by decide)

/-- A string does not go on after its second quote. -/
theorem eq_nil_of_quote {body other extension : Text} (hother : '"' ∉ other)
    (h : '"' :: body ++ ['"'] ++ extension = '"' :: other ++ ['"']) : extension = [] := by
  rcases List.eq_nil_or_concat extension with hnil | ⟨front, last, hconcat⟩
  · exact hnil
  · rw [hconcat, List.concat_eq_append, ← List.append_assoc] at h
    obtain ⟨hfront, -⟩ := List.append_inj' h rfl
    have hbody : body ++ ['"'] ++ front = other := (List.cons.inj hfront).2
    exact absurd (by simp [← hbody]) hother

/-- Before a blank, or at the end, no text of any token class is longer. -/
theorem longest (h : TokenClass kind text) (hmore : more.StartsBlank) :
    Longest text (text ++ more) := by
  refine ⟨List.prefix_append text more, fun otherKind other hother hfront => ?_⟩
  apply Nat.le_of_not_lt
  intro hlt
  obtain ⟨extension, rfl⟩ := List.prefix_of_prefix_length_le (List.prefix_append text more) hfront
    (Nat.le_of_lt hlt)
  have hextension : extension <+: more := (List.prefix_append_right_inj text).mp hfront
  have hne : extension ≠ [] := by
    rintro rfl
    rw [List.append_nil] at hlt
    exact Nat.lt_irrefl _ hlt
  obtain ⟨c, others, rfl⟩ := List.exists_cons_of_ne_nil hne
  obtain ⟨left, rfl⟩ := hextension
  -- The longer text goes over the blank, so it is a string, and so is the text it begins with.
  have hblank : c ∈ [' ', '\r', '\t', '\n'] := hmore c rfl
  have hc : c ∈ [' ', '\r', '\t', '\n', '"'] := List.mem_append_left ['"'] hblank
  obtain ⟨-, longer, hlonger, hstring⟩ := hother.string_of_mem (by simp) hc
  obtain ⟨first, rest, rfl⟩ := List.exists_cons_of_ne_nil h.ne_nil
  have hfirst : first = '"' := (List.cons.inj hstring).1
  obtain ⟨-, body, -, hbody⟩ := h.string_of_mem List.mem_cons_self (by simp [hfirst])
  rw [hbody] at hstring
  exact hne (eq_nil_of_quote hlonger hstring)

/-- Before a blank, or at the end, a text of a token class is cut as a lexeme. -/
theorem cut (h : TokenClass kind text) (hliteral : Denotes kind text literal)
    (hmore : more.StartsBlank) : Cut (.lexeme kind literal text) (text ++ more) := by
  refine .lexeme h hliteral (h.longest hmore) ?_
  rintro ⟨rest, hrest⟩
  obtain ⟨first, others, rfl⟩ := List.exists_cons_of_ne_nil h.ne_nil
  obtain ⟨rfl, hothers⟩ := List.cons.inj hrest
  -- A slash is a lexeme by itself, so the second slash would be the blank.
  have hnil := h.eq_nil_of_slash
  subst hnil
  have hblank : '/' ∈ [' ', '\r', '\t', '\n'] := hmore '/' (congrArg List.head? hothers).symm
  exact absurd hblank (by decide)

end TokenClass

namespace Segmentation

variable {rest : Text} {pieces : List Segment}

/-- Blanks at the front are segments of their own. -/
theorem blanks {front : Text} (hfront : ∀ c ∈ front, c ∈ [' ', '\r', '\t', '\n'])
    (hrest : Segmentation rest pieces) :
    Segmentation (front ++ rest) (front.map .blank ++ pieces) := by
  induction front with
  | nil => exact hrest
  | cons c front ih =>
    obtain ⟨hc, hfront⟩ := List.forall_mem_cons.mp hfront
    have hcut : Cut (.blank c) ((Segment.blank c).text ++ (front ++ rest)) := .blank _ hc
    exact .cut hcut (ih hfront)

/-- A lexeme before a blank, or at the end, is a segment of its own. -/
theorem lexeme {token : Token} (hclass : TokenClass token.kind token.lexeme)
    (hliteral : Denotes token.kind token.lexeme token.literal)
    (hnext : rest.StartsBlank) (hrest : Segmentation rest pieces) :
    Segmentation (token.lexeme ++ rest)
      (.lexeme token.kind token.literal token.lexeme :: pieces) := by
  have hcut : Cut (.lexeme token.kind token.literal token.lexeme)
      ((Segment.lexeme token.kind token.literal token.lexeme).text ++ rest) :=
    hclass.cut hliteral hnext
  exact .cut hcut hrest

end Segmentation

/-- Blanks are neither lexemes nor faults. -/
theorem Segment.filterMap_blanks {α : Type} {part? : Segment → Option α}
    (hpart : ∀ c, part? (blank c) = none) (blanks : Text) (pieces : List Segment) :
    (blanks.map blank ++ pieces).filterMap part? = pieces.filterMap part? := by
  have hnone : (blanks.map blank).filterMap part? = [] := by
    rw [List.filterMap_eq_nil_iff]
    intro segment hmem
    obtain ⟨c, -, rfl⟩ := List.mem_map.mp hmem
    exact hpart c
  rw [List.filterMap_append, hnone, List.nil_append]

/-- Lexemes with separators between them are segments of their own, and there is no other lexeme and
no fault between them. -/
theorem segmentation_joinBy {separator : Nat → Text}
    (hseparator : ∀ place, (separator place).Separates) {tokens : List Token}
    (htokens : ∀ token ∈ tokens, TokenClass token.kind token.lexeme ∧
      Denotes token.kind token.lexeme token.literal) :
    ∃ pieces, Segmentation (Text.joinBy separator (tokens.map Token.lexeme)) pieces ∧
      pieces.filterMap Segment.lexeme? =
        tokens.map (fun token => (token.kind, token.literal, token.lexeme)) ∧
      pieces.filterMap Segment.offence? = [] := by
  induction tokens generalizing separator with
  | nil => exact ⟨[], .done, rfl, rfl⟩
  | cons token tokens ih =>
    obtain ⟨⟨hclass, hliteral⟩, htokens⟩ := List.forall_mem_cons.mp htokens
    cases tokens with
    | nil =>
      have hlast : Segmentation (token.lexeme ++ [])
          [.lexeme token.kind token.literal token.lexeme] :=
        .lexeme hclass hliteral (fun c hc => by cases hc) .done
      rw [List.append_nil] at hlast
      exact ⟨_, hlast, rfl, rfl⟩
    | cons next others =>
      obtain ⟨pieces, hpieces, hlexemes, hoffences⟩ :=
        ih (fun place => hseparator (place + 1)) htokens
      have hall := Segmentation.lexeme hclass hliteral ((hseparator 0).startsBlank _)
        (.blanks (hseparator 0).2 hpieces)
      rw [← List.append_assoc] at hall
      have hkept := (Segment.filterMap_blanks (fun _ => rfl) (separator 0) pieces).trans hlexemes
      have hclean := (Segment.filterMap_blanks (fun _ => rfl) (separator 0) pieces).trans hoffences
      exact ⟨_, hall, congrArg ((token.kind, token.literal, token.lexeme) :: ·) hkept, hclean⟩

namespace Scan

/-- The lexemes of a source scan to themselves. Whatever is wrong with the source, its lexemes
joined by any separators of blanks are a source without a fault, and its tokens are of the same
kinds, with the same lexemes and literals, in the same order and closed by the end of the source. -/
theorem ofSource_joined_lexemes (source : Text) (separator : Nat → Text)
    (hseparator : ∀ place, (separator place).Separates) :
    ∃ tokens,
      (ofSource source).tokens = tokens ++ [Token.endOfSource (1 + source.lineFeeds : Nat)] ∧
      (∀ token ∈ tokens, token.isEnd = false) ∧
      (ofSource (Text.joinBy separator (tokens.map Token.lexeme))).faults = [] ∧
      ∃ again,
        (ofSource (Text.joinBy separator (tokens.map Token.lexeme))).tokens =
          again ++ [Token.endOfSource
            (1 + (Text.joinBy separator (tokens.map Token.lexeme)).lineFeeds : Nat)] ∧
        again.map (fun token => (token.kind, token.literal, token.lexeme)) =
          tokens.map (fun token => (token.kind, token.literal, token.lexeme)) := by
  have hclasses : ∀ token ∈ (Segment.located 1 (segments source)).filterMap Segment.token?,
      TokenClass token.kind token.lexeme ∧ Denotes token.kind token.lexeme token.literal :=
    fun token hmem => tokenClass_of_mem hmem
  obtain ⟨pieces, hpieces, hlexemes, hoffences⟩ := segmentation_joinBy hseparator hclasses
  rw [segmentation_iff] at hpieces
  subst hpieces
  refine ⟨(Segment.located 1 (segments source)).filterMap Segment.token?, rfl, ?_, ?_, _, rfl, ?_⟩
  · intro token hmem
    rw [Token.isEnd, beq_eq_false_iff_ne]
    exact (hclasses token hmem).1.ne_endOfSource
  · rw [← Segment.map_filterMap_fault? 1] at hoffences
    exact List.map_eq_nil_iff.mp hoffences
  · rw [Segment.map_filterMap_token?, hlexemes]

/-- Signs that would merge, a string with slashes and a line feed in it, and what stood around a
fault, are scanned again with different separators between them. -/
theorem ofSource_joined_lexemes_signs :
    (∀ place, Text.Separates (if place = 0 then ['\n'] else [' ', '\t'])) ∧
    ∃ tokens again stop,
      (ofSource ['!', '@', '=', '"', '/', '\n', '/', '"', 'x']).tokens =
        tokens ++ [Token.endOfSource 2] ∧
      (ofSource (Text.joinBy (fun place => if place = 0 then ['\n'] else [' ', '\t'])
        (tokens.map Token.lexeme))).faults = [] ∧
      (ofSource (Text.joinBy (fun place => if place = 0 then ['\n'] else [' ', '\t'])
        (tokens.map Token.lexeme))).tokens = again ++ [stop] ∧
      again.map (fun token => (token.kind, token.literal, token.lexeme)) =
        tokens.map (fun token => (token.kind, token.literal, token.lexeme)) := by
  have hseparator : ∀ place, Text.Separates (if place = 0 then ['\n'] else [' ', '\t']) := by
    intro place
    by_cases hfirst : place = 0
    · rw [if_pos hfirst]
      exact ⟨List.cons_ne_nil _ _, by simp⟩
    · rw [if_neg hfirst]
      exact ⟨List.cons_ne_nil _ _, by simp⟩
  obtain ⟨tokens, htokens, -, hfaults, again, hagain, hsame⟩ :=
    ofSource_joined_lexemes ['!', '@', '=', '"', '/', '\n', '/', '"', 'x'] _ hseparator
  exact ⟨hseparator, tokens, again, _, htokens, hfaults, hagain, hsame⟩

end Scan

end Lox
