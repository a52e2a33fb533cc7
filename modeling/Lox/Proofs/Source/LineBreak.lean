import Lox.Proofs.Source.Tokenisation

/-!
# Sources cut at a line feed

Every segment ends at a line feed at the latest, a string and the line feed itself apart. So a
source in which no string is left open may be followed by a line feed and by any other source: the
segments of both stay what they are alone, and so do the tokens, but for their lines.
-/

namespace Lox

/-- The longest front part of characters of one class ends before a character of none. -/
theorem takeWhile_append_cons {p : Char → Bool} {c : Char} (hc : p c = false) (front after : Text) :
    (front ++ c :: after).takeWhile p = front.takeWhile p := by
  induction front with
  | nil => rw [List.nil_append, List.takeWhile_cons, hc, List.takeWhile_nil]; rfl
  | cons d front ih => rw [List.cons_append, List.takeWhile_cons, List.takeWhile_cons, ih]

/-- What is left after the longest front part of characters of one class, before a character of
none. -/
theorem dropWhile_append_cons {p : Char → Bool} {c : Char} (hc : p c = false) (front after : Text) :
    (front ++ c :: after).dropWhile p = front.dropWhile p ++ c :: after := by
  induction front with
  | nil => rw [List.nil_append, List.dropWhile_cons, hc, List.dropWhile_nil]; rfl
  | cons d front ih =>
    rw [List.cons_append, List.dropWhile_cons, List.dropWhile_cons, ih]
    split <;> rfl

namespace Segment

section LineFeed

variable (rest after : Text)

/-- A line feed is no equals sign. -/
theorem paired_append_lineFeed (c : Char) (kinds : Kind × Kind) :
    paired c kinds (rest ++ '\n' :: after) = paired c kinds rest := by
  cases rest with
  | nil => rfl
  | cons d rest =>
    by_cases hd : d = '='
    · subst hd
      rfl
    · simp [paired, hd]

/-- A line feed ends a comment and does not begin one. -/
theorem slash_append_lineFeed : slash (rest ++ '\n' :: after) = slash rest := by
  cases rest with
  | nil => rfl
  | cons d rest =>
    by_cases hd : d = '/'
    · subst hd
      simp only [List.cons_append, slash]
      rw [takeWhile_append_cons (by decide)]
    · simp [slash, hd]

/-- A line feed ends a number. -/
theorem number_append_lineFeed (c : Char) : number c (rest ++ '\n' :: after) = number c rest := by
  have hfraction : ∀ more, fraction (more ++ '\n' :: after) = fraction more := by
    intro more
    cases more with
    | nil => rfl
    | cons d more =>
      by_cases hd : d = '.'
      · subst hd
        exact takeWhile_append_cons (by decide) more after
      · simp [fraction, hd]
  have hdigit : Char.isDigit '\n' = false := by decide
  unfold number
  rw [takeWhile_append_cons hdigit, dropWhile_append_cons hdigit, hfraction]

/-- A line feed ends a word. -/
theorem word_append_lineFeed (c : Char) : word c (rest ++ '\n' :: after) = word c rest := by
  rw [word, takeWhile_append_cons (by decide)]
  rfl

end LineFeed

/-- A line feed after a closed string changes nothing. -/
theorem string_append_lineFeed {rest : Text} (h : ∀ text, string rest ≠ unterminated text)
    (after : Text) : string (rest ++ '\n' :: after) = string rest := by
  have hmem : '"' ∈ rest := Classical.byContradiction fun hnot => h _ (string_open hnot)
  obtain ⟨body, more, rfl, hbody⟩ := List.eq_append_cons_of_mem hmem
  rw [List.append_assoc, List.cons_append, string_closed hbody, string_closed hbody]

/-- A line feed and what follows it do not change the first segment, unless that is a string that is
left open. -/
theorem first_append_lineFeed {c : Char} {rest : Text}
    (h : ∀ text, first c rest ≠ unterminated text) (after : Text) :
    first c (rest ++ '\n' :: after) = first c rest := by
  by_cases hquote : c = '"'
  · subst hquote
    exact string_append_lineFeed h after
  · simp only [first, if_neg hquote, paired_append_lineFeed, slash_append_lineFeed,
      number_append_lineFeed, word_append_lineFeed]

end Segment

/-- Segments before a line feed are those of the source before it, and those after it are those of
the source after it, if no string is left open. -/
theorem segments_append_lineFeed {source : Text}
    (h : ∀ text, Segment.unterminated text ∉ segments source) (after : Text) :
    segments (source ++ '\n' :: after) = segments source ++ .blank '\n' :: segments after := by
  fun_induction segments source with
  | case1 => rw [List.nil_append, segments]; rfl
  | case2 c rest segment ih =>
    have hfirst : Segment.first c (rest ++ '\n' :: after) = segment :=
      Segment.first_append_lineFeed (fun text heq => h text (heq ▸ List.mem_cons_self)) after
    obtain ⟨hne, more, hmore⟩ := (Segment.cut_first c rest).text_append
    have hdrop : (rest ++ '\n' :: after).drop (segment.text.length - 1) =
        rest.drop (segment.text.length - 1) ++ '\n' :: after := by
      rw [drop_length_pred hne hmore]
      exact drop_length_pred hne (by rw [← List.append_assoc, ← hmore]; rfl)
    have hrest := ih fun text hmem => h text (List.mem_cons_of_mem _ hmem)
    rw [List.cons_append, segments, hfirst, hdrop, hrest]
    rfl

/-- The line feeds of consecutive segments add up. -/
theorem Segment.lineFeeds_flatMap_cons (segment : Segment) (pieces : List Segment) :
    Text.lineFeeds ((segment :: pieces).flatMap text) =
      segment.text.lineFeeds + Text.lineFeeds (pieces.flatMap text) := by
  rw [List.flatMap_cons]
  exact List.count_append

/-- Segments are located one after the other, each on the line that those before it lead to. -/
theorem Segment.located_append (line : Nat) (pieces others : List Segment) :
    located line (pieces ++ others) =
      located line pieces ++ located (line + Text.lineFeeds (pieces.flatMap text)) others := by
  induction pieces generalizing line with
  | nil => rfl
  | cons segment pieces ih =>
    rw [List.cons_append, located, located, ih, lineFeeds_flatMap_cons, ← Nat.add_assoc]
    rfl

/-- Located segments before a line feed are those of the source before it, and those after it are
those of the source after it, from the next line on. -/
theorem located_append_lineFeed {source : Text}
    (h : ∀ text, Segment.unterminated text ∉ segments source) (line : Nat) (after : Text) :
    Segment.located line (segments (source ++ '\n' :: after)) =
      Segment.located line (segments source) ++
        (.blank '\n', line + source.lineFeeds + 1) ::
          Segment.located (line + source.lineFeeds + 1) (segments after) := by
  rw [segments_append_lineFeed h, Segment.located_append,
    (segmentation_segments source).flatMap_text]
  rfl

/-- A token that many lines further down. -/
def Token.shifted (lines : Nat) (token : Token) : Token := { token with line := token.line + lines }

/-- A fault of the source that many lines further down. -/
def ScanFault.shifted (lines : Nat) (fault : ScanFault) : ScanFault :=
  { fault with line := fault.line + lines }

namespace Segment

/-- Segments that start further down are located further down, and stay the same otherwise. -/
theorem located_add (line lines : Nat) (pieces : List Segment) :
    located (line + lines) pieces =
      (located line pieces).map fun piece => (piece.1, piece.2 + lines) := by
  induction pieces generalizing line with
  | nil => rfl
  | cons segment pieces ih =>
    have hline : line + lines + segment.text.lineFeeds =
        line + segment.text.lineFeeds + lines := Nat.add_right_comm _ _ _
    rw [located, located, hline, ih, List.map_cons]

/-- The token of a lexeme moves with its segment. -/
theorem token?_add (segment : Segment) (line lines : Nat) :
    token? (segment, line + lines) = (token? (segment, line)).map (Token.shifted lines) := by
  cases segment <;> rfl

/-- The fault of a segment moves with it. -/
theorem fault?_add (segment : Segment) (line lines : Nat) :
    fault? (segment, line + lines) = (fault? (segment, line)).map (ScanFault.shifted lines) := by
  cases segment <;> rfl

/-- What is made of located segments moves with them. -/
theorem filterMap_located_add {α : Type} {part? : Segment × Nat → Option α} {shift : Nat → α → α}
    (hpart : ∀ segment line lines,
      part? (segment, line + lines) = (part? (segment, line)).map (shift lines))
    (line lines : Nat) (pieces : List Segment) :
    (located (line + lines) pieces).filterMap part? =
      ((located line pieces).filterMap part?).map (shift lines) := by
  have hmoves : (part? ∘ fun piece : Segment × Nat => (piece.1, piece.2 + lines)) =
      fun piece => (part? piece).map (shift lines) :=
    funext fun piece => hpart piece.1 piece.2 lines
  rw [located_add, List.filterMap_map, List.map_filterMap, hmoves]

end Segment

namespace Scan

/-- A source whose faults include none of an open string leaves no string open. -/
theorem unterminated_not_mem_of_causes {source : Text}
    (h : ∀ fault ∈ (ofSource source).faults, fault.cause ≠ .unterminatedString) (text : Text) :
    Segment.unterminated text ∉ segments source := by
  intro hmem
  have hoffence : (Cause.unterminatedString, ([] : Text)) ∈
      (segments source).filterMap Segment.offence? := List.mem_filterMap.mpr ⟨_, hmem, rfl⟩
  rw [← Segment.map_filterMap_fault? 1] at hoffence
  obtain ⟨fault, hfault, heq⟩ := List.mem_map.mp hoffence
  exact h fault hfault (congrArg Prod.fst heq)

/-- A source without faults leaves no string open. -/
theorem unterminated_not_mem {source : Text} (h : (ofSource source).faults = []) (text : Text) :
    Segment.unterminated text ∉ segments source := by
  refine unterminated_not_mem_of_causes (fun fault hfault => ?_) text
  rw [h] at hfault
  cases hfault

/-- Scanning is compositional at line feeds. If no string is left open before a line feed, the
tokens are those of the source before it, without its end, and then those of the source after it;
the faults are those before it and then those after it. What comes from after the line feed stands
as many lines further down as there are line feeds up to and with this one. -/
theorem ofSource_append_lineFeed (source after : Text)
    (h : ∀ fault ∈ (ofSource source).faults, fault.cause ≠ .unterminatedString) :
    (∃ tokens,
      (ofSource source).tokens = tokens ++ [Token.endOfSource (1 + source.lineFeeds : Nat)] ∧
      (ofSource (source ++ '\n' :: after)).tokens =
        tokens ++ (ofSource after).tokens.map (Token.shifted (source.lineFeeds + 1))) ∧
    (ofSource (source ++ '\n' :: after)).faults =
      (ofSource source).faults ++
        (ofSource after).faults.map (ScanFault.shifted (source.lineFeeds + 1)) := by
  have hpieces := located_append_lineFeed (unterminated_not_mem_of_causes h) 1 after
  have hlines : (source ++ '\n' :: after).lineFeeds =
      source.lineFeeds + 1 + after.lineFeeds := by
    have hcount : (source ++ '\n' :: after).count '\n' =
        source.count '\n' + (after.count '\n' + 1) := by
      rw [List.count_append, List.count_cons_self]
    simp only [Text.lineFeeds]
    omega
  rw [Nat.add_assoc 1] at hpieces
  constructor
  · refine ⟨(Segment.located 1 (segments source)).filterMap Segment.token?, rfl, ?_⟩
    have hend : Token.endOfSource ((1 + (source ++ '\n' :: after).lineFeeds : Nat) : Int) =
        (Token.endOfSource (1 + after.lineFeeds : Nat)).shifted (source.lineFeeds + 1) := by
      simp only [Token.endOfSource, Token.shifted, Token.mk.injEq, true_and, hlines]
      omega
    have hafter : (ofSource after).tokens =
        (Segment.located 1 (segments after)).filterMap Segment.token? ++
          [Token.endOfSource (1 + after.lineFeeds : Nat)] := rfl
    change (Segment.located 1 (segments (source ++ '\n' :: after))).filterMap Segment.token? ++
      [Token.endOfSource ((1 + (source ++ '\n' :: after).lineFeeds : Nat) : Int)] = _
    rw [hpieces, List.filterMap_append, List.filterMap_cons_none rfl,
      Segment.filterMap_located_add Segment.token?_add, hend, hafter, List.map_append,
      List.map_singleton, List.append_assoc]
  · change (Segment.located 1 (segments (source ++ '\n' :: after))).filterMap Segment.fault? = _
    rw [hpieces, List.filterMap_append, List.filterMap_cons_none rfl,
      Segment.filterMap_located_add Segment.fault?_add]
    rfl

/-- Two equals signs on two lines do not merge, and a fault before the line feed does not matter. -/
theorem ofSource_append_lineFeed_signs :
    (∃ tokens,
      (ofSource ['@', '=']).tokens = tokens ++ [Token.endOfSource 1] ∧
      (ofSource ['@', '=', '\n', '=', '"']).tokens =
        tokens ++ (ofSource ['=', '"']).tokens.map (Token.shifted 1)) ∧
    (ofSource ['@', '=', '\n', '=', '"']).faults =
      (ofSource ['@', '=']).faults ++ (ofSource ['=', '"']).faults.map (ScanFault.shifted 1) :=
  ofSource_append_lineFeed ['@', '='] ['=', '"'] (by decide +kernel)

end Scan

end Lox
