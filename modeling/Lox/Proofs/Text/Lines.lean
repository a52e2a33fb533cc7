import Lox.Proofs.Number.Sign
import Lox.Proofs.Text.Quoted

/-!
# Texts on lines of their own

Texts that are written one a line are recovered by splitting at line feeds exactly if none of them
holds a line feed, and exactly if there are as many line feeds as texts. Numbers and quoted texts
hold none.
-/

namespace Lox

namespace Text

/-- Line feeds are counted in parts. -/
theorem lineFeeds_append (text other : Text) :
    lineFeeds (text ++ other) = text.lineFeeds + other.lineFeeds :=
  List.count_append

/-- A text stands on one line if the line feed is not in it. -/
theorem lineFeeds_eq_zero_iff {text : Text} : text.lineFeeds = 0 ↔ '\n' ∉ text :=
  List.count_eq_zero

/-- Splitting at line feeds gives one piece more than there are line feeds. -/
theorem length_splitOn_lineFeed (text : Text) :
    (text.splitOn '\n').length = text.lineFeeds + 1 := by
  induction text with
  | nil => rfl
  | cons c rest ih =>
    rw [List.splitOn_eq_splitOnP] at ih ⊢
    rw [List.splitOnP_cons_eq_if_modifyHead, lineFeeds, List.count_cons]
    split
    · exact congrArg (· + 1) ih
    · rw [List.length_modifyHead]
      exact ih

variable (texts : List Text)

/-- Texts that are written one a line have one line feed each beside their own. -/
theorem lineFeeds_flatMap_line :
    lineFeeds (texts.flatMap line) = (texts.map lineFeeds).sum + texts.length := by
  induction texts with
  | nil => rfl
  | cons text texts ih =>
    have hline : text.line.lineFeeds = text.lineFeeds + 1 := lineFeeds_append text ['\n']
    rw [List.flatMap_cons, lineFeeds_append, ih, hline, List.map_cons, List.sum_cons,
      List.length_cons]
    omega

/-- Texts that are written one a line have as many line feeds as they are exactly if each stands on
one line. -/
theorem lineFeeds_flatMap_line_iff :
    lineFeeds (texts.flatMap line) = texts.length ↔ ∀ text ∈ texts, text.lineFeeds = 0 := by
  rw [lineFeeds_flatMap_line, Nat.add_eq_right, List.sum_eq_zero_iff, List.forall_mem_map]

/-- Splitting at line feeds recovers texts that were written one a line exactly if each stands on one
line. -/
theorem splitOn_flatMap_line_iff :
    (texts.flatMap line).splitOn '\n' = texts ++ [[]] ↔ ∀ text ∈ texts, text.lineFeeds = 0 := by
  constructor
  · intro hsplit
    have hlength := congrArg List.length hsplit
    rw [length_splitOn_lineFeed, List.length_append, List.length_singleton] at hlength
    exact (lineFeeds_flatMap_line_iff texts).mp (Nat.succ.inj hlength)
  · intro hlines
    induction texts with
    | nil => rfl
    | cons text texts ih =>
      rw [List.forall_mem_cons] at hlines
      rw [List.flatMap_cons, line, List.append_assoc, List.singleton_append,
        List.splitOn_append_cons_self_of_not_mem (lineFeeds_eq_zero_iff.mp hlines.1), ih hlines.2,
        List.cons_append]

/-- A number is written with digits and a sign. -/
theorem mem_ofInt {n : Int} {c : Char} (h : c ∈ ofInt n) : c.isDigit = true ∨ c = '-' := by
  cases n with
  | ofNat n => exact .inl (Decimal.isDigit_of_mem_ofNat h)
  | negSucc n =>
    rcases List.mem_cons.mp h with rfl | h
    · exact .inr rfl
    · exact .inl (Decimal.isDigit_of_mem_ofNat h)

/-- A number holds no sign but its own. -/
theorem not_mem_ofInt {c : Char} (hdigit : c.isDigit = false) (hsign : c ≠ '-') (n : Int) :
    c ∉ ofInt n := by
  intro hmem
  rcases mem_ofInt hmem with h | h
  · rw [hdigit] at h
    cases h
  · exact hsign h

/-- Different natural numbers have different digits. -/
theorem ofNat_inj {m n : Nat} (h : ofNat m = ofNat n) : m = n := by
  have hread (k : Nat) : Nat.ofDigitChars 10 (ofNat k) 0 = k := Nat.ofDigitChars_ten_toDigits
  rw [← hread m, h, hread n]

/-- Different numbers are written differently. -/
theorem ofInt_inj {m n : Int} (h : ofInt m = ofInt n) : m = n := by
  have hsign (k l : Nat) : ofNat k ≠ '-' :: ofNat l := by
    intro heq
    have hmem : '-' ∈ ofNat k := heq ▸ List.mem_cons_self
    exact absurd (Decimal.isDigit_of_mem_ofNat hmem) (by decide)
  cases m with
  | ofNat m =>
    cases n with
    | ofNat n => exact congrArg Int.ofNat (ofNat_inj h)
    | negSucc n => exact absurd h (hsign m (n + 1))
  | negSucc m =>
    cases n with
    | ofNat n => exact absurd h.symm (hsign n (m + 1))
    | negSucc n => exact congrArg Int.negSucc (Nat.succ.inj (ofNat_inj (List.cons.inj h).2))

/-- A number stands on one line. -/
theorem lineFeeds_ofInt (n : Int) : (ofInt n).lineFeeds = 0 :=
  lineFeeds_eq_zero_iff.mpr (not_mem_ofInt (by decide) (by decide) n)

/-- What is printable stands on one line. -/
theorem lineFeeds_eq_zero_of_isPrintable {text : Text} (h : ∀ c ∈ text, isPrintable c = true) :
    text.lineFeeds = 0 := by
  have hlineFeed : isPrintable '\n' = false := by decide
  rw [lineFeeds_eq_zero_iff]
  intro hmem
  rw [h '\n' hmem] at hlineFeed
  cases hlineFeed

end Text

namespace Quoted

/-- A quoted text stands on one line. -/
theorem lineFeeds_text (t : Text) : (text t).lineFeeds = 0 :=
  Text.lineFeeds_eq_zero_of_isPrintable fun _ => isPrintable_of_mem_text

/-- A quoted character stands on one line. -/
theorem lineFeeds_char (c : Char) : (char c).lineFeeds = 0 := by
  have hquote : isPrintable '\x27' = true := by decide
  refine Text.lineFeeds_eq_zero_of_isPrintable fun d hd => ?_
  rcases List.mem_cons.mp hd with rfl | hd
  · exact hquote
  · rcases List.mem_append.mp hd with hd | hd
    · exact isPrintable_of_mem_escape hquote hd
    · rw [List.mem_singleton.mp hd]
      exact hquote

end Quoted

end Lox
