import Lox.Proofs.Source.TokenClass

/-!
# Scanning is maximal munch

The first segment that is cut from a source is the right one: every right cut is the computed one,
and every source has a right cut. So the segments of a source are its only segmentation, its tokens
are the lexemes among them and its faults are the segments that should not be there.
-/

namespace Lox

/-- The longest front part of characters of one class ends before the first other character. -/
theorem takeWhile_append_eq {p : Char → Bool} {front rest : Text} (hfront : ∀ c ∈ front, p c = true)
    (hrest : ∀ c ∈ rest.head?, p c = false) : (front ++ rest).takeWhile p = front := by
  rw [List.takeWhile_append_of_pos hfront]
  cases rest with
  | nil => simp
  | cons c others => simp [hrest c rfl]

/-- What is left after the longest front part of characters of one class. -/
theorem dropWhile_append_eq {p : Char → Bool} {front rest : Text} (hfront : ∀ c ∈ front, p c = true)
    (hrest : ∀ c ∈ rest.head?, p c = false) : (front ++ rest).dropWhile p = rest := by
  rw [List.dropWhile_append_of_pos hfront]
  cases rest with
  | nil => rfl
  | cons c others => simp [hrest c rfl]

/-- Front parts of one class of characters, each before a character that is not of the class or at
the end, are told apart. -/
theorem append_inj_of_class {p : Char → Bool} {front other rest more : Text}
    (hfront : ∀ c ∈ front, p c = true) (hother : ∀ c ∈ other, p c = true)
    (hrest : ∀ c ∈ rest.head?, p c = false) (hmore : ∀ c ∈ more.head?, p c = false)
    (h : front ++ rest = other ++ more) : front = other ∧ rest = more := by
  have htake := takeWhile_append_eq hfront hrest
  have hdrop := dropWhile_append_eq hfront hrest
  rw [h, takeWhile_append_eq hother hmore] at htake
  rw [h, dropWhile_append_eq hother hmore] at hdrop
  exact ⟨htake.symm, hdrop.symm⟩

/-- A character that does not occur differs from all that do. -/
theorem bne_of_not_mem {c : Char} {text : Text} (h : c ∉ text) : ∀ d ∈ text, (d != c) = true := by
  intro d hd
  rw [bne_iff_ne]
  intro heq
  exact h (heq ▸ hd)

/-- Front parts that end where a mark first stands are told apart. -/
theorem append_cons_inj {mark : Char} {front other rest more : Text} (hfront : mark ∉ front)
    (hother : mark ∉ other) (h : front ++ mark :: rest = other ++ mark :: more) :
    front = other ∧ rest = more := by
  have hmark (text : Text) : ∀ c ∈ (mark :: text).head?, (c != mark) = false := by
    intro c hc
    cases hc
    exact bne_self_eq_false mark
  obtain ⟨hparts, hrest⟩ := append_inj_of_class (bne_of_not_mem hfront) (bne_of_not_mem hother)
    (hmark rest) (hmark more) h
  exact ⟨hparts, (List.cons.inj hrest).2⟩

namespace Segment

/-- The characters that decide by themselves what begins with them. -/
def special : List Char :=
  [' ', '\r', '\t', '\n', '(', ')', '\x7b', '\x7d', ',', '.', '-', '+', ';', '*', '!', '=', '<',
    '>', '/', '"']

/-- A special character is a blank, a quote or a symbol of its own. -/
theorem special_cases (c : Char) (h : c ∈ special) :
    c ∈ [' ', '\r', '\t', '\n'] ∨ c = '"' ∨ ∃ kind : Kind, kind.symbol? = some [c] := by
  have hall : special.all (fun c => decide (c ∈ [' ', '\r', '\t', '\n'] ∨ c = '"' ∨
      (Kind.all.any fun kind => kind.symbol? == some [c]) = true)) = true := by decide
  rcases of_decide_eq_true (List.all_eq_true.mp hall c h) with hblank | hquote | hany
  · exact .inl hblank
  · exact .inr (.inl hquote)
  · obtain ⟨kind, -, hkind⟩ := List.any_eq_true.mp hany
    exact .inr (.inr ⟨kind, beq_iff_eq.mp hkind⟩)

/-- All other characters begin a number, a word or nothing. -/
theorem first_of_not_special {c : Char} (h : c ∉ special) (rest : Text) :
    first c rest =
      if c.isDigit then number c rest else if startsWord c then word c rest else stray c := by
  simp only [special, List.mem_cons, List.not_mem_nil, or_false, not_or] at h
  simp [first, isBlank, single?, paired?, h]

/-- Digits are not special. -/
theorem not_special_of_isDigit {c : Char} (h : c.isDigit = true) : c ∉ special := by
  intro hmem
  have hall : special.all (fun d => !d.isDigit) = true := by decide
  have hnot := List.all_eq_true.mp hall c hmem
  rw [h] at hnot
  cases hnot

/-- Characters that words start with are not special. -/
theorem not_special_of_startsWord {c : Char} (h : startsWord c = true) : c ∉ special := by
  intro hmem
  have hall : special.all (fun d => !startsWord d) = true := by decide
  have hnot := List.all_eq_true.mp hall c hmem
  rw [h] at hnot
  cases hnot

/-- A character from beyond the digits on is no digit. -/
theorem isDigit_eq_false_of_le {c : Char} (first : Char) (hfirst : '9'.val < first.val)
    (hle : first.val ≤ c.val) : c.isDigit = false := by
  have hnot : decide (c.val ≤ '9'.val) = false := by
    rw [decide_eq_false_iff_not]
    exact UInt32.not_le.mpr (UInt32.lt_of_lt_of_le hfirst hle)
  change (decide ('0'.val ≤ c.val) && decide (c.val ≤ '9'.val)) = false
  rw [hnot, Bool.and_false]

/-- No word starts with a digit. -/
theorem isDigit_eq_false_of_startsWord {c : Char} (h : startsWord c = true) :
    c.isDigit = false := by
  have hcases : (('A'.val ≤ c.val ∧ c.val ≤ 'Z'.val) ∨ 'a'.val ≤ c.val ∧ c.val ≤ 'z'.val) ∨
      c = '_' := by
    change (decide ('A'.val ≤ c.val ∧ c.val ≤ 'Z'.val) ||
      decide ('a'.val ≤ c.val) && decide (c.val ≤ 'z'.val) || decide (c = '_')) = true at h
    simpa using h
  rcases hcases with (hupper | hlower) | hunderscore
  · exact isDigit_eq_false_of_le 'A' (by decide) hupper.1
  · exact isDigit_eq_false_of_le 'a' (by decide) hlower.1
  · rw [hunderscore]
    rfl

/-- A digit begins a number. -/
theorem first_of_isDigit {c : Char} (h : c.isDigit = true) (rest : Text) :
    first c rest = number c rest := by
  rw [first_of_not_special (not_special_of_isDigit h), if_pos h]

/-- A letter or an underscore begins a word. -/
theorem first_of_startsWord {c : Char} (h : startsWord c = true) (rest : Text) :
    first c rest = word c rest := by
  rw [first_of_not_special (not_special_of_startsWord h), isDigit_eq_false_of_startsWord h,
    if_pos h]
  rfl

/-- What begins with a digit, by the digits before and after a point. -/
theorem number_eq {c : Char} {rest digits tail : Text}
    (hdigits : rest.takeWhile Char.isDigit = digits)
    (htail : fraction (rest.dropWhile Char.isDigit) = tail) :
    number c rest =
      numeral (if tail = [] then c :: digits else c :: digits ++ '.' :: tail)
        (Decimal.ofDigits (c :: digits) tail).toFloat? := by
  subst hdigits htail
  rfl

/-- No point with digits after it stands after a longest number without one. -/
theorem fraction_eq_nil {digits more : Text} (hdigits : digits.IsDigits)
    (hlongest : Longest digits (digits ++ more)) : fraction more = [] := by
  unfold fraction
  split
  · rename_i rest
    apply Classical.byContradiction
    intro hne
    have hfraction : Text.IsDigits (rest.takeWhile Char.isDigit) :=
      ⟨hne, List.all_eq_true.mp List.all_takeWhile⟩
    have hnil := hlongest.not_extended (.number (.point hdigits hfraction))
      (List.cons_prefix_cons.mpr ⟨rfl, List.takeWhile_prefix _⟩)
    exact List.cons_ne_nil _ _ hnil
  · rfl

/-- What begins with a digit is the longest number there. -/
theorem number_of_numeral {c : Char} {rest text more : Text} {value : Decimal}
    (hsource : c :: rest = text ++ more) (hnumeral : Numeral text value)
    (hlongest : Longest text (text ++ more)) :
    number c rest = numeral text value.toFloat? := by
  cases hnumeral with
  | whole hdigits =>
    have hmore := hlongest.next_eq_false (p := Char.isDigit) fun d hd =>
      ⟨.number, .number (.whole (hdigits.concat hd))⟩
    have hfraction := fraction_eq_nil hdigits hlongest
    obtain ⟨first, others, rfl⟩ := List.exists_cons_of_ne_nil hdigits.1
    obtain ⟨rfl, rfl⟩ := List.cons.inj hsource
    have hothers : ∀ d ∈ others, d.isDigit = true := fun d hd =>
      hdigits.2 d (List.mem_cons_of_mem c hd)
    have hdrop := dropWhile_append_eq hothers hmore
    have heq := number_eq (c := c) (takeWhile_append_eq hothers hmore) (hdrop ▸ hfraction)
    rw [if_pos rfl] at heq
    exact heq
  | @point digits tail hdigits htail =>
    have hmore := hlongest.next_eq_false (p := Char.isDigit) fun d hd => by
      rw [List.append_assoc, List.cons_append]
      exact ⟨.number, .number (.point hdigits (htail.concat hd))⟩
    obtain ⟨first, others, rfl⟩ := List.exists_cons_of_ne_nil hdigits.1
    rw [List.append_assoc, List.cons_append] at hsource
    obtain ⟨rfl, rfl⟩ := List.cons.inj hsource
    have hothers : ∀ d ∈ others, d.isDigit = true := fun d hd =>
      hdigits.2 d (List.mem_cons_of_mem c hd)
    have hpoint : ∀ d ∈ ('.' :: tail ++ more).head?, d.isDigit = false := by
      intro d hd
      cases hd
      rfl
    have hdrop := dropWhile_append_eq hothers hpoint
    have hfraction : fraction ('.' :: tail ++ more) = tail := takeWhile_append_eq htail.2 hmore
    have heq := number_eq (c := c) (takeWhile_append_eq hothers hpoint) (hdrop ▸ hfraction)
    rw [if_neg htail.1] at heq
    exact heq

/-- A reserved word has the kind of its keyword. -/
theorem wordKind_spelling (word : Keyword) : wordKind word.spelling = .keyword word := by
  cases word <;> rfl

/-- A word that is not reserved is an identifier. -/
theorem wordKind_of_free {text : Text} (h : ∀ word : Keyword, word.spelling ≠ text) :
    wordKind text = .identifier := by
  have hnone : Keyword.ofText? text = none := by
    rw [Keyword.ofText?, List.find?_eq_none]
    intro word hmem heq
    exact h word (beq_iff_eq.mp heq)
  rw [wordKind, hnone]

/-- What begins with a letter or an underscore is the longest word there. -/
theorem first_of_isWord {c : Char} {rest text more : Text} (hsource : c :: rest = text ++ more)
    (hword : text.IsWord) (hlongest : Longest text (text ++ more)) :
    first c rest = lexeme (wordKind text) .none text := by
  have hmore := hlongest.next_eq_false fun d hd => (hword.concat hd).tokenClass
  cases text with
  | nil => exact hword.elim
  | cons first others =>
    obtain ⟨rfl, rfl⟩ := List.cons.inj hsource
    have htake := takeWhile_append_eq hword.2 hmore
    rw [first_of_startsWord hword.1, word, List.append_eq, htake]

/-- A character that may take an equals sign stands alone if none follows. -/
theorem paired_alone {c : Char} (kinds : Kind × Kind) {more : Text}
    (hboth : kinds.2.symbol? = some [c, '=']) (hlongest : Longest [c] ([c] ++ more)) :
    paired c kinds more = lexeme kinds.1 .none [c] := by
  unfold paired
  split
  · rename_i rest
    have hclass : TokenClass kinds.2 ([c] ++ ['=']) := .symbol hboth
    have hnil := hlongest.not_extended hclass (List.cons_prefix_cons.mpr ⟨rfl, List.nil_prefix⟩)
    exact absurd hnil (List.cons_ne_nil _ _)
  · rfl

/-- A slash stands alone if no other slash follows. -/
theorem slash_alone {more : Text} (hcomment : ¬ ['/', '/'] <+: '/' :: more) :
    slash more = lexeme .slash .none ['/'] := by
  unfold slash
  split
  · exact absurd (by simp) hcomment
  · rfl

/-- The longest fixed text at the front of the source is its first segment. -/
theorem first_of_symbol {kind : Kind} {c : Char} {rest text more : Text}
    (hsource : c :: rest = text ++ more) (hsymbol : kind.symbol? = some text)
    (hlongest : Longest text (text ++ more)) (hcomment : ¬ ['/', '/'] <+: c :: rest) :
    first c rest = lexeme kind .none text := by
  cases kind <;> cases hsymbol <;> cases hsource
  case slash => exact slash_alone hcomment
  case bang => exact paired_alone (.bang, .bangEqual) rfl hlongest
  case equal => exact paired_alone (.equal, .equalEqual) rfl hlongest
  case less => exact paired_alone (.less, .lessEqual) rfl hlongest
  case greater => exact paired_alone (.greater, .greaterEqual) rfl hlongest
  all_goals rfl

/-- A string ends with the first quote after its own. -/
theorem string_closed {body more : Text} (hbody : '"' ∉ body) :
    string (body ++ '"' :: more) = lexeme .string (.string body) ('"' :: body ++ ['"']) := by
  have htake : (body ++ '"' :: more).takeWhile (· != '"') = body := by
    refine takeWhile_append_eq (bne_of_not_mem hbody) fun c hc => ?_
    cases hc
    rfl
  have hlt : body.length < (body ++ '"' :: more).length := by
    rw [List.length_append, List.length_cons]
    omega
  simp only [string, htake, if_pos hlt, List.cons_append]

/-- A string without another quote runs to the end. -/
theorem string_open {body : Text} (hbody : '"' ∉ body) :
    string body = unterminated ('"' :: body) := by
  have htake : (body ++ []).takeWhile (· != '"') = body :=
    takeWhile_append_eq (bne_of_not_mem hbody) fun c hc => by cases hc
  rw [List.append_nil] at htake
  simp only [string, htake, Nat.lt_irrefl, if_false]

/-- A comment ends before the first line feed. -/
theorem slash_comment {body rest : Text} (hbody : '\n' ∉ body)
    (hrest : ∀ c ∈ rest.head?, c = '\n') :
    slash ('/' :: (body ++ rest)) = comment ('/' :: '/' :: body) := by
  have htake : (body ++ rest).takeWhile (· != '\n') = body := by
    refine takeWhile_append_eq (bne_of_not_mem hbody) fun c hc => ?_
    rw [hrest c hc]
    rfl
  simp only [slash, htake]

/-- The longest text of a token class at the front of the source is its first segment. -/
theorem first_of_tokenClass {kind : Kind} {literal : Literal} {c : Char} {rest text more : Text}
    (hsource : c :: rest = text ++ more) (hclass : TokenClass kind text)
    (hliteral : Denotes kind text literal) (hlongest : Longest text (text ++ more))
    (hcomment : ¬ ['/', '/'] <+: c :: rest) : first c rest = lexeme kind literal text := by
  cases hliteral with
  | string body =>
    simp only [List.cons_append, List.append_assoc, List.nil_append] at hsource
    obtain ⟨rfl, rfl⟩ := List.cons.inj hsource
    exact string_closed (hclass.quote_not_mem rfl)
  | number hnumeral hvalue =>
    obtain ⟨first, others, htext, hdigit⟩ := hnumeral.first
    have hc : c = first := by
      rw [htext] at hsource
      exact (List.cons.inj hsource).1
    rw [first_of_isDigit (hc ▸ hdigit), number_of_numeral hsource hnumeral hlongest, hvalue]
    rfl
  | none _ hstring hnumber =>
    cases hclass with
    | symbol hsymbol => exact first_of_symbol hsource hsymbol hlongest hcomment
    | keyword word =>
      rw [first_of_isWord hsource word.spelling_isWord hlongest, wordKind_spelling]
    | identifier hword hfree =>
      rw [first_of_isWord hsource hword hlongest, wordKind_of_free hfree]
    | string hbody => exact absurd rfl hstring
    | number hnumeral => exact absurd rfl hnumber

/-- Every right cut is the one that is computed. -/
theorem first_of_cut {segment : Segment} {c : Char} {source rest : Text} (h : Cut segment source)
    (hsource : source = c :: rest) : first c rest = segment := by
  cases h with
  | @blank d others hblank =>
    have hisBlank : isBlank d = true := by simpa [isBlank, or_assoc] using hblank
    obtain ⟨rfl, rfl⟩ := List.cons.inj hsource
    rw [first, if_pos hisBlank]
  | comment hbody hend =>
    obtain ⟨rfl, rfl⟩ := List.cons.inj hsource
    exact slash_comment hbody hend
  | lexeme hclass hliteral hlongest hcomment =>
    obtain ⟨more, rfl⟩ := hlongest.1
    rw [hsource] at hcomment
    exact first_of_tokenClass hsource.symm hclass hliteral hlongest hcomment
  | overflow hnumeral hvalue hlongest =>
    obtain ⟨more, rfl⟩ := hlongest.1
    obtain ⟨first, others, rfl, hdigit⟩ := hnumeral.first
    have hc := (List.cons.inj hsource).1
    rw [first_of_isDigit (hc ▸ hdigit), number_of_numeral hsource.symm hnumeral hlongest, hvalue]
    rfl
  | @stray d others hblank hquote hnone =>
    obtain ⟨rfl, rfl⟩ := List.cons.inj hsource
    have hfront : [d] <+: d :: others := List.cons_prefix_cons.mpr ⟨rfl, List.nil_prefix⟩
    have hspecial : d ∉ special := by
      intro hmem
      rcases special_cases d hmem with hmem | heq | ⟨kind, hkind⟩
      · exact hblank hmem
      · exact hquote heq
      · exact hnone kind [d] (.symbol hkind) hfront
    have hdigit : ¬ d.isDigit = true := by
      intro hdigit
      have hdigits : Text.IsDigits [d] := ⟨List.cons_ne_nil _ _, by simpa using hdigit⟩
      exact hnone .number [d] (.number (.whole hdigits)) hfront
    have hstarts : ¬ startsWord d = true := by
      intro hstarts
      have hword : Text.IsWord [d] := ⟨hstarts, by simp⟩
      obtain ⟨kind, hkind⟩ := hword.tokenClass
      exact hnone kind [d] hkind hfront
    rw [first_of_not_special hspecial, if_neg hdigit, if_neg hstarts]
  | unterminated hbody =>
    obtain ⟨rfl, rfl⟩ := List.cons.inj hsource
    exact string_open hbody

/-- The first segment that is computed is a right cut. -/
theorem cut_first (c : Char) (rest : Text) : Cut (first c rest) (c :: rest) := by
  obtain ⟨segment, hcut⟩ := exists_cut c rest
  rw [first_of_cut hcut rfl]
  exact hcut

end Segment

/-- Dropping what a front part leaves of a list leaves what follows the front part. -/
theorem drop_length_pred {c : Char} {rest text more : Text} (hne : text ≠ [])
    (h : c :: rest = text ++ more) : rest.drop (text.length - 1) = more := by
  obtain ⟨first, others, rfl⟩ := List.exists_cons_of_ne_nil hne
  rw [(List.cons.inj h).2]
  simp

/-- The segments of a source are a segmentation of it. -/
theorem segmentation_segments (source : Text) : Segmentation source (segments source) := by
  fun_induction segments source with
  | case1 => exact .done
  | case2 c rest segment ih =>
    have hcut := Segment.cut_first c rest
    obtain ⟨hne, more, hmore⟩ := hcut.text_append
    rw [drop_length_pred hne hmore] at ih
    rw [drop_length_pred hne hmore]
    rw [hmore] at hcut ⊢
    exact .cut hcut ih

/-- A source has no other segmentation than its segments. -/
theorem segmentation_iff (source : Text) (pieces : List Segment) :
    Segmentation source pieces ↔ pieces = segments source := by
  constructor
  · intro h
    induction h with
    | done => rw [segments]
    | @cut segment rest pieces hcut hrest ih =>
      obtain ⟨hne, -⟩ := hcut.text_append
      cases hsource : segment.text ++ rest with
      | nil => exact absurd (List.append_eq_nil_iff.mp hsource).1 hne
      | cons c others =>
        have hfirst := Segment.first_of_cut hcut hsource
        rw [segments, hfirst, drop_length_pred hne hsource.symm, ih]
  · intro h
    rw [h]
    exact segmentation_segments source

/-- The kind, literal and text of a segment that is a lexeme. -/
def Segment.lexeme? : Segment → Option (Kind × Literal × Text)
  | lexeme kind literal text => some (kind, literal, text)
  | _ => none

/-- What is wrong with a segment that should not be there, and the part of it that is quoted. -/
def Segment.offence? : Segment → Option (Cause × Text)
  | stray c => some (.unexpectedCharacter, Quoted.char c)
  | overflow text => some (.invalidNumber, Quoted.text text)
  | unterminated _ => some (.unterminatedString, [])
  | _ => none

/-- The tokens of located segments are the lexemes among the segments. -/
theorem Segment.map_filterMap_token? (line : Nat) (pieces : List Segment) :
    ((located line pieces).filterMap token?).map
        (fun token => (token.kind, token.literal, token.lexeme)) =
      pieces.filterMap lexeme? := by
  induction pieces generalizing line with
  | nil => rfl
  | cons segment pieces ih =>
    have hrest := ih (line + segment.text.lineFeeds)
    cases segment with
    | lexeme kind literal text => exact congrArg ((kind, literal, text) :: ·) hrest
    | _ => exact hrest

/-- The faults of located segments are the segments that should not be there. -/
theorem Segment.map_filterMap_fault? (line : Nat) (pieces : List Segment) :
    ((located line pieces).filterMap fault?).map (fun fault => (fault.cause, fault.details)) =
      pieces.filterMap offence? := by
  induction pieces generalizing line with
  | nil => rfl
  | cons segment pieces ih =>
    have hrest := ih (line + segment.text.lineFeeds)
    cases segment with
    | stray c => exact congrArg ((Cause.unexpectedCharacter, Quoted.char c) :: ·) hrest
    | overflow text => exact congrArg ((Cause.invalidNumber, Quoted.text text) :: ·) hrest
    | unterminated text => exact congrArg ((Cause.unterminatedString, []) :: ·) hrest
    | _ => exact hrest

/-- Every lexeme of a segmentation belongs to the token class of its kind and has the literal that
its text stands for. -/
theorem Segmentation.tokenClass {source : Text} {pieces : List Segment}
    (h : Segmentation source pieces) {kind : Kind} {literal : Literal} {text : Text}
    (hmem : Segment.lexeme kind literal text ∈ pieces) :
    TokenClass kind text ∧ Denotes kind text literal := by
  induction h with
  | done => exact absurd hmem List.not_mem_nil
  | cut hcut hrest ih =>
    rcases List.mem_cons.mp hmem with heq | hmem
    · rw [← heq] at hcut
      generalize hsource : (Segment.lexeme kind literal text).text ++ _ = source at hcut
      cases hcut with
      | lexeme hclass hliteral hlongest hcomment => exact ⟨hclass, hliteral⟩
    · exact ih hmem

/-- A token of located segments comes from a lexeme among the segments. -/
theorem Segment.lexeme_of_mem_token? {line : Nat} {pieces : List Segment} {token : Token}
    (h : token ∈ (located line pieces).filterMap token?) :
    lexeme token.kind token.literal token.lexeme ∈ pieces := by
  have hmem := List.mem_map_of_mem (f := fun token => (token.kind, token.literal, token.lexeme)) h
  rw [map_filterMap_token?] at hmem
  obtain ⟨segment, hsegment, hlexeme⟩ := List.mem_filterMap.mp hmem
  cases segment with
  | lexeme kind literal text =>
    cases hlexeme
    exact hsegment
  | _ => cases hlexeme

/-- No token class is that of the end of the source. -/
theorem TokenClass.ne_endOfSource {kind : Kind} {text : Text} (h : TokenClass kind text) :
    kind ≠ .endOfSource := by
  rintro rfl
  cases h with
  | symbol hsymbol => cases hsymbol

namespace Scan

/-- The tokens before the end of the source belong to their classes and have their literals. -/
theorem tokenClass_of_mem {source : Text} {token : Token}
    (h : token ∈ (Segment.located 1 (segments source)).filterMap Segment.token?) :
    TokenClass token.kind token.lexeme ∧ Denotes token.kind token.lexeme token.literal :=
  (segmentation_segments source).tokenClass (Segment.lexeme_of_mem_token? h)

/-- No token before the end of a source is an end. -/
theorem isEnd_of_mem {source : Text} {token : Token}
    (h : token ∈ (Segment.located 1 (segments source)).filterMap Segment.token?) :
    token.isEnd = false := by
  rw [Token.isEnd, beq_eq_false_iff_ne]
  exact (tokenClass_of_mem h).1.ne_endOfSource

/-- Scanning is maximal munch: a source has exactly one segmentation, which loses no character. The
tokens before the one end of the source are the lexemes of the segmentation in order, each in its
class and with its literal, and the faults are in order the segments that should not be there. -/
theorem ofSource_maximal_munch (source : Text) :
    ∃ pieces : List Segment,
      (∀ other, Segmentation source other ↔ other = pieces) ∧
      pieces.flatMap Segment.text = source ∧
      (∃ tokens,
        (ofSource source).tokens = tokens ++ [Token.endOfSource (1 + source.lineFeeds : Nat)] ∧
        (∀ token ∈ tokens, token.isEnd = false ∧ TokenClass token.kind token.lexeme ∧
          Denotes token.kind token.lexeme token.literal) ∧
        tokens.map (fun token => (token.kind, token.literal, token.lexeme)) =
          pieces.filterMap Segment.lexeme?) ∧
      (ofSource source).faults.map (fun fault => (fault.cause, fault.details)) =
        pieces.filterMap Segment.offence? := by
  refine ⟨segments source, segmentation_iff source, (segmentation_segments source).flatMap_text,
    ⟨(Segment.located 1 (segments source)).filterMap Segment.token?, rfl, ?_,
      Segment.map_filterMap_token? 1 (segments source)⟩,
    Segment.map_filterMap_fault? 1 (segments source)⟩
  intro token hmem
  exact ⟨isEnd_of_mem hmem, tokenClass_of_mem hmem⟩

end Scan

end Lox
