import Lox.Proofs.Source.LineOrder
import Lox.Proofs.Source.Rescan

/-!
# Lines by counting

The line of a token or of a fault is found by counting line feeds in the source, without regard to
how the source was cut: up to the end of a lexeme, and before a segment that should not be there.
The two ways to count differ only for segments that hold line feeds themselves. Of the faults that
is an open string alone, which runs to the end of the source and is reported there.
-/

namespace Lox

/-- The line that a text ends on, where lines are counted from one. -/
def Text.lastLine (text : Text) : Nat := 1 + text.lineFeeds

/-- A segment is cut from the front of what is left after the segments before it. -/
theorem Segmentation.cut_after {source : Text} {earlier later : List Segment} {segment : Segment}
    (h : Segmentation source (earlier ++ segment :: later)) :
    Cut segment (segment.text ++ later.flatMap Segment.text) := by
  induction earlier generalizing source with
  | nil =>
    cases h with
    | cut hcut hrest =>
      rw [hrest.flatMap_text]
      exact hcut
  | cons first earlier ih =>
    cases h with
    | cut hcut hrest => exact ih hrest

/-- There is no line feed in a number. -/
theorem Numeral.lineFeeds_eq_zero {text : Text} {value : Decimal} (h : Numeral text value) :
    text.lineFeeds = 0 := by
  refine List.count_eq_zero.mpr fun hmem => ?_
  rcases h.not_special '\n' hmem with heq | hnot
  · exact absurd heq (by decide)
  · exact hnot (by decide)

/-- A segment that should not be there holds no line feed, unless it is an open string. -/
theorem Cut.lineFeeds_eq_zero {segment : Segment} {source : Text} (h : Cut segment source)
    {cause : Cause} {details : Text} (hoffence : segment.offence? = some (cause, details))
    (hcause : cause ≠ .unterminatedString) : segment.text.lineFeeds = 0 := by
  cases h with
  | @stray c rest hblank hquote hnone =>
    refine List.count_eq_zero.mpr fun hmem => hblank ?_
    rw [← List.mem_singleton.mp hmem]
    decide
  | overflow hnumeral hvalue hlongest => exact hnumeral.lineFeeds_eq_zero
  | unterminated hbody =>
    cases hoffence
    exact absurd rfl hcause
  | _ => cases hoffence

/-- Nothing stands after an open string. -/
theorem Cut.eq_nil_of_unterminated {segment : Segment} {rest : Text}
    (h : Cut segment (segment.text ++ rest)) {details : Text}
    (hoffence : segment.offence? = some (.unterminatedString, details)) : rest = [] := by
  cases segment with
  | unterminated text =>
    generalize hsource : (Segment.unterminated text).text ++ rest = source at h
    cases h with
    | unterminated hbody => exact List.append_right_eq_self.mp hsource
  | _ => cases hoffence

namespace Segment

/-- A located segment is on the line that the text up to its end leads to. -/
theorem eq_append_of_located {line : Nat} {pieces : List Segment}
    {before after : List (Segment × Nat)} {piece : Segment × Nat}
    (h : located line pieces = before ++ piece :: after) :
    ∃ earlier later, pieces = earlier ++ piece.1 :: later ∧ before = located line earlier ∧
      piece.2 = line + Text.lineFeeds (earlier.flatMap text ++ piece.1.text) := by
  induction pieces generalizing line before with
  | nil => cases before <;> cases h
  | cons segment pieces ih =>
    cases before with
    | nil =>
      cases h
      exact ⟨[], pieces, rfl, rfl, rfl⟩
    | cons first before =>
      obtain ⟨hfirst, hrest⟩ := List.cons.inj h
      obtain ⟨earlier, later, hpieces, hbefore, hline⟩ := ih hrest
      refine ⟨segment :: earlier, later, congrArg (segment :: ·) hpieces, ?_, ?_⟩
      · rw [hbefore, ← hfirst]
        rfl
      · have hfeeds : Text.lineFeeds ((segment :: earlier).flatMap text ++ piece.1.text) =
            segment.text.lineFeeds + Text.lineFeeds (earlier.flatMap text ++ piece.1.text) := by
          rw [List.flatMap_cons, List.append_assoc]
          exact List.count_append
        rw [hline, hfeeds, Nat.add_assoc]

/-- What is made of one segment of a source is on the line that the text up to the end of that
segment leads to, and what stands before it is made of the segments before. -/
theorem eq_append_of_filterMap {α : Type} {part? : Segment × Nat → Option α} {source : Text}
    {before after : List α} {part : α}
    (h : (located 1 (segments source)).filterMap part? = before ++ part :: after) :
    ∃ earlier segment later, Segmentation source (earlier ++ segment :: later) ∧
      (located 1 earlier).filterMap part? = before ∧
      part? (segment, Text.lastLine (earlier.flatMap text ++ segment.text)) = some part := by
  obtain ⟨front, back, hpieces, hfront, hback⟩ := List.filterMap_eq_append_iff.mp h
  obtain ⟨skipped, piece, rest, rfl, hskipped, hpart, hrest⟩ := List.filterMap_eq_cons_iff.mp hback
  rw [← List.append_assoc] at hpieces
  obtain ⟨earlier, later, hsegments, hbefore, hline⟩ := eq_append_of_located hpieces
  refine ⟨earlier, piece.1, later, ?_, ?_, ?_⟩
  · rw [← hsegments]
    exact segmentation_segments source
  · rw [← hbefore, List.filterMap_append, hfront, List.filterMap_eq_nil_iff.mpr hskipped,
      List.append_nil]
  · rw [Text.lastLine, ← hline]
    exact hpart

end Segment

namespace Scan

/-- Of the tokens of a source one is the end, which comes last, and the others are made of
lexemes. -/
theorem eq_append_of_tokens {source : Text} {before after : List Token} {token : Token}
    (h : (ofSource source).tokens = before ++ token :: after) :
    (token = Token.endOfSource source.lastLine ∧ after = []) ∨
      (token.isEnd = false ∧ ∃ rest,
        (Segment.located 1 (segments source)).filterMap Segment.token? =
          before ++ token :: rest) := by
  rcases List.eq_nil_or_concat after with rfl | ⟨rest, last, rfl⟩
  · obtain ⟨-, hlast⟩ := List.append_inj' h rfl
    exact .inl ⟨(List.head_eq_of_cons_eq hlast).symm, rfl⟩
  · rw [List.concat_eq_append, ← List.cons_append, ← List.append_assoc] at h
    have hlexemes := (List.append_inj' h rfl).1
    have hmem : token ∈ (Segment.located 1 (segments source)).filterMap Segment.token? := by
      rw [hlexemes]
      exact List.mem_append_right _ List.mem_cons_self
    exact .inr ⟨isEnd_of_mem hmem, rest, hlexemes⟩

/-- The lexeme of a string ends with a quote, on which line it ends. -/
theorem string_ends_at_quote {kind : Kind} {text : Text} (h : TokenClass kind text)
    (hkind : kind = .string) (before : Text) :
    ∃ front, text = front ++ ['"'] ∧
      Text.lastLine (before ++ text) = Text.lastLine (before ++ front) := by
  subst hkind
  cases h with
  | symbol hsymbol => cases hsymbol
  | @string body hbody =>
    refine ⟨'"' :: body, rfl, ?_⟩
    have hfeeds : (before ++ ('"' :: body ++ ['"'])).count '\n' =
        (before ++ '"' :: body).count '\n' + ['"'].count '\n' := by
      rw [← List.append_assoc, List.count_append]
    exact congrArg (1 + ·) hfeeds

/-- The line of a token, by counting up to the end of its lexeme. -/
theorem line_of_lexemes {source : Text} {before after : List Token} {token : Token}
    (h : (Segment.located 1 (segments source)).filterMap Segment.token? =
      before ++ token :: after) :
    ∃ earlier later,
      Segmentation source (earlier ++ .lexeme token.kind token.literal token.lexeme :: later) ∧
      earlier.filterMap Segment.lexeme? =
        before.map (fun token => (token.kind, token.literal, token.lexeme)) ∧
      token.line = Text.lastLine (earlier.flatMap Segment.text ++ token.lexeme) := by
  obtain ⟨earlier, segment, later, hcut, hbefore, htoken⟩ := Segment.eq_append_of_filterMap h
  cases segment with
  | lexeme kind literal text =>
    cases htoken
    exact ⟨earlier, later, hcut, by rw [← hbefore, Segment.map_filterMap_token?], rfl⟩
  | _ => cases htoken

/-- The line of a fault, by counting up to the segment that should not be there, or to the end of
the source for an open string. -/
theorem line_of_faults {source : Text} {before after : List ScanFault} {fault : ScanFault}
    (h : (ofSource source).faults = before ++ fault :: after) :
    ∃ earlier segment later, Segmentation source (earlier ++ segment :: later) ∧
      earlier.filterMap Segment.offence? =
        before.map (fun fault => (fault.cause, fault.details)) ∧
      segment.offence? = some (fault.cause, fault.details) ∧
      fault.line = if fault.cause = .unterminatedString then (source.lastLine : Int)
        else Text.lastLine (earlier.flatMap Segment.text) := by
  obtain ⟨earlier, segment, later, hcut, hbefore, hfault⟩ := Segment.eq_append_of_filterMap h
  have hoffence : segment.offence? = some (fault.cause, fault.details) := by
    cases segment <;> cases hfault <;> rfl
  refine ⟨earlier, segment, later, hcut, ?_, hoffence, ?_⟩
  · rw [← hbefore, Segment.map_filterMap_fault?]
  rw [Segment.line_of_fault? hfault]
  by_cases hcause : fault.cause = .unterminatedString
  · have hrest : later.flatMap Segment.text = [] :=
      hcut.cut_after.eq_nil_of_unterminated (hcause ▸ hoffence)
    have hsource : earlier.flatMap Segment.text ++ segment.text = source := by
      have hall := hcut.flatMap_text
      rwa [List.flatMap_append, List.flatMap_cons, hrest, List.append_nil] at hall
    rw [if_pos hcause, hsource]
  · have hfeeds : segment.text.count '\n' = 0 := hcut.cut_after.lineFeeds_eq_zero hoffence hcause
    have hlast : Text.lastLine (earlier.flatMap Segment.text ++ segment.text) =
        Text.lastLine (earlier.flatMap Segment.text) := by
      rw [Text.lastLine, Text.lineFeeds, List.count_append, hfeeds]
      rfl
    rw [if_neg hcause, hlast]

/-- Lines are those of the source. A token is on the line of the end of its lexeme, so that a string
over several lines is on that of its second quote, and the end of the source is on its last line. A
character that starts nothing and a number that is too large are on the line they begin on, and an
open string is on the last line. The place of the n-th token, and of the n-th fault, is that of the
n-th segment of its sort. -/
theorem ofSource_lines_counted (source : Text) :
    (∀ before token after, (ofSource source).tokens = before ++ token :: after →
      if token.isEnd then token.line = source.lastLine ∧ after = []
      else ∃ earlier later,
        Segmentation source
          (earlier ++ .lexeme token.kind token.literal token.lexeme :: later) ∧
        earlier.filterMap Segment.lexeme? =
          before.map (fun token => (token.kind, token.literal, token.lexeme)) ∧
        token.line = Text.lastLine (earlier.flatMap Segment.text ++ token.lexeme) ∧
        (token.kind = .string → ∃ front, token.lexeme = front ++ ['"'] ∧
          token.line = Text.lastLine (earlier.flatMap Segment.text ++ front))) ∧
    ∀ before fault after, (ofSource source).faults = before ++ fault :: after →
      ∃ earlier segment later, Segmentation source (earlier ++ segment :: later) ∧
        earlier.filterMap Segment.offence? =
          before.map (fun fault => (fault.cause, fault.details)) ∧
        segment.offence? = some (fault.cause, fault.details) ∧
        fault.line = if fault.cause = .unterminatedString then (source.lastLine : Int)
          else Text.lastLine (earlier.flatMap Segment.text) := by
  refine ⟨fun before token after htokens => ?_, fun before fault after => line_of_faults⟩
  rcases eq_append_of_tokens htokens with ⟨rfl, rfl⟩ | ⟨hend, rest, hlexemes⟩
  · exact ⟨rfl, rfl⟩
  · rw [hend]
    obtain ⟨earlier, later, hcut, hbefore, hline⟩ := line_of_lexemes hlexemes
    have hclass := (hcut.tokenClass (List.mem_append_right _ List.mem_cons_self)).1
    refine ⟨earlier, later, hcut, hbefore, hline, fun hkind => ?_⟩
    rw [hline]
    obtain ⟨front, hlexeme, hsame⟩ :=
      string_ends_at_quote hclass hkind (earlier.flatMap Segment.text)
    exact ⟨front, hlexeme, congrArg Int.ofNat hsame⟩

end Scan

end Lox
