import Lox.Text.Quoted

/-!
# Quoted text is read back

A quoted text holds printable characters only, so it stands on one line, and it ends at the first
quote that no backslash stands before. What it was made of is read back from its front, one
character at a time, whatever follows it. So no quoted text is the beginning of another one.
-/

namespace Lox

namespace Text

/-- The number that a hexadecimal digit stands for. -/
def hexDigit (c : Char) : Nat := if c.isDigit then c.toNat - 48 else c.toNat - 87

/-- The number that hexadecimal digits stand for. -/
def ofHex (digits : Text) : Nat := digits.foldl (fun number c => number * 16 + hexDigit c) 0

/-- The hexadecimal digits in the order of the numbers they stand for. -/
theorem hexDigit_digitChar {n : Nat} (h : n < 16) : hexDigit (Nat.digitChar n) = n := by
  have hall : (List.range 16).all (fun n => hexDigit (Nat.digitChar n) == n) = true := by decide
  exact beq_iff_eq.mp (List.all_eq_true.mp hall n (List.mem_range.mpr h))

/-- Hexadecimal digits are read back. -/
theorem ofHex_toDigits (n : Nat) : ofHex (Nat.toDigits 16 n) = n := by
  induction n using Nat.strongRecOn with
  | ind n ih =>
    by_cases hlt : n < 16
    · rw [Nat.toDigits_of_lt_base hlt, ofHex, List.foldl_cons, List.foldl_nil,
        hexDigit_digitChar hlt, Nat.zero_mul, Nat.zero_add]
    · have hrest := ih (n / 16) (by omega)
      have hlast := hexDigit_digitChar (Nat.mod_lt n (by decide : 0 < 16))
      rw [Nat.toDigits_of_base_le (by decide) (Nat.le_of_not_lt hlt), ofHex, List.foldl_append]
      rw [ofHex] at hrest
      rw [hrest, List.foldl_cons, List.foldl_nil, hlast]
      omega

/-- Hexadecimal digits with zeros before them are read back. -/
theorem ofHex_hex (width n : Nat) : ofHex (hex width n) = n := by
  have hzeros : ∀ count, ofHex (List.replicate count '0') = 0 := by
    intro count
    induction count with
    | zero => rfl
    | succ count ih => exact ih
  have hdigits := ofHex_toDigits n
  have hpadding := hzeros (width - (Nat.toDigits 16 n).length)
  rw [ofHex] at hdigits hpadding
  rw [ofHex, hex, List.foldl_append, hpadding, hdigits]

/-- Numbers that are small enough have as many digits as they should. -/
theorem length_hex {width n : Nat} (hwidth : 0 < width) (h : n < Nat.pow 16 width) :
    (hex width n).length = width := by
  have hlength := (Nat.length_toDigits_le_iff (by decide : 1 < 16) hwidth).mpr h
  rw [hex, List.length_append, List.length_replicate]
  omega

/-- Hexadecimal digits are printable. -/
theorem isPrintable_of_mem_toDigits {n : Nat} {c : Char} (h : c ∈ Nat.toDigits 16 n) :
    isPrintable c = true := by
  have hall : (List.range 16).all (fun n => isPrintable (Nat.digitChar n)) = true := by decide
  have hdigit {n : Nat} (hlt : n < 16) : isPrintable (Nat.digitChar n) = true :=
    List.all_eq_true.mp hall n (List.mem_range.mpr hlt)
  induction n using Nat.strongRecOn with
  | ind n ih =>
    by_cases hlt : n < 16
    · rw [Nat.toDigits_of_lt_base hlt] at h
      rw [List.mem_singleton.mp h]
      exact hdigit hlt
    · rw [Nat.toDigits_of_base_le (by decide) (Nat.le_of_not_lt hlt)] at h
      rcases List.mem_append.mp h with h | h
      · exact ih (n / 16) (by omega) h
      · rw [List.mem_singleton.mp h]
        exact hdigit (Nat.mod_lt n (by decide))

/-- Hexadecimal digits with zeros before them are printable. -/
theorem isPrintable_of_mem_hex {width n : Nat} {c : Char} (h : c ∈ hex width n) :
    isPrintable c = true := by
  rcases List.mem_append.mp h with h | h
  · rw [List.eq_of_mem_replicate h]
    decide
  · exact isPrintable_of_mem_toDigits h

end Text

namespace Quoted

/-- The number of hexadecimal digits that a letter after a backslash announces. -/
def width? (c : Char) : Option Nat :=
  if c = 'x' then some 2 else if c = 'u' then some 4 else if c = 'U' then some 8 else none

/-- The character that a letter names after a backslash, which is the letter itself if it is none of
the control characters with a name. -/
def named (c : Char) : Char :=
  if c = 'a' then '\x07'
  else if c = 'b' then '\x08'
  else if c = 'f' then '\x0C'
  else if c = 'n' then '\n'
  else if c = 'r' then '\r'
  else if c = 't' then '\t'
  else if c = 'v' then '\x0B'
  else c

/-- The control characters that have a name, each with its letter. -/
def controls : List (Char × Char) :=
  [('\x07', 'a'), ('\x08', 'b'), ('\x0C', 'f'), ('\n', 'n'), ('\r', 'r'), ('\t', 't'),
    ('\x0B', 'v')]

/-- No other character has a name. -/
theorem mem_controls {c letter : Char} (h : letter? c = some letter) :
    (c, letter) ∈ controls := by
  by_cases hc : c ∈ ['\x07', '\x08', '\x0C', '\n', '\r', '\t', '\x0B']
  · simp only [List.mem_cons, List.not_mem_nil, or_false] at hc
    rcases hc with rfl | rfl | rfl | rfl | rfl | rfl | rfl <;> cases h <;> decide
  · simp only [List.mem_cons, List.not_mem_nil, or_false, not_or] at hc
    simp [letter?, hc] at h

/-- One character at the front of what stands between double quotes, and what follows it. -/
def unescape? : Text → Option (Char × Text)
  | [] => none
  | '"' :: _ => none
  | '\\' :: c :: rest =>
    match width? c with
    | some width => some (Char.ofNat (Text.ofHex (rest.take width)), rest.drop width)
    | none => some (named c, rest)
  | c :: rest => some (c, rest)

/-- A code of as many digits as its letter announces is read back. -/
theorem unescape?_hex {letter c : Char} {width : Nat} (hletter : width? letter = some width)
    (hlength : (Text.hex width c.toNat).length = width) (rest : Text) :
    unescape? ('\\' :: letter :: Text.hex width c.toNat ++ rest) = some (c, rest) := by
  have htake : (Text.hex width c.toNat ++ rest).take width = Text.hex width c.toNat :=
    List.take_left' hlength
  have hdrop : (Text.hex width c.toNat ++ rest).drop width = rest := List.drop_left' hlength
  simp only [List.cons_append, unescape?, hletter, htake, hdrop, Text.ofHex_hex, Char.ofNat_toNat]

/-- The code of a character is read back. -/
theorem unescape?_code (c : Char) (rest : Text) : unescape? (code c ++ rest) = some (c, rest) := by
  rw [code]
  split
  · rename_i hlt
    exact unescape?_hex rfl (Text.length_hex (by decide) (Nat.lt_trans hlt (by decide))) rest
  · split
    · rename_i hlt
      exact unescape?_hex rfl (Text.length_hex (by decide) hlt) rest
    · have hlt : c.toNat < Nat.pow 16 8 :=
        Nat.lt_of_lt_of_le c.val.toNat_lt (by decide)
      exact unescape?_hex rfl (Text.length_hex (by decide) hlt) rest

/-- A control character with a name is read back. -/
theorem unescape?_letter {c letter : Char} (h : letter? c = some letter) (rest : Text) :
    unescape? ('\\' :: letter :: rest) = some (c, rest) := by
  have hall : controls.all (fun control =>
      width? control.2 == none && named control.2 == control.1) = true := by decide
  have hletter := List.all_eq_true.mp hall (c, letter) (mem_controls h)
  rw [Bool.and_eq_true, beq_iff_eq, beq_iff_eq] at hletter
  simp only [unescape?, hletter]

/-- A character as it stands between double quotes is read back. -/
theorem unescape?_escape (c : Char) (rest : Text) :
    unescape? (escape '"' c ++ rest) = some (c, rest) := by
  rw [escape]
  split
  · rename_i hself
    rcases hself with rfl | rfl <;> rfl
  · rename_i hother
    obtain ⟨hquote, hbackslash⟩ := not_or.mp hother
    split
    · simp [unescape?, hbackslash]
    · split
      · rename_i letter hletter
        exact unescape?_letter hletter rest
      · exact unescape?_code c rest

/-- A quoted text is read back, and nothing of what follows it belongs to it. -/
theorem text_append_inj {s t x y : Text} (h : text s ++ x = text t ++ y) : s = t ∧ x = y := by
  have hbody : s.flatMap (escape '"') ++ '"' :: x = t.flatMap (escape '"') ++ '"' :: y := by
    simpa [text] using h
  clear h
  induction s generalizing t with
  | nil =>
    cases t with
    | nil => exact ⟨rfl, (List.cons.inj hbody).2⟩
    | cons d t =>
      have hread := unescape?_escape d (t.flatMap (escape '"') ++ '"' :: y)
      rw [← List.append_assoc, ← List.flatMap_cons, ← hbody] at hread
      cases hread
  | cons c s ih =>
    have hread := unescape?_escape c (s.flatMap (escape '"') ++ '"' :: x)
    rw [← List.append_assoc, ← List.flatMap_cons, hbody] at hread
    cases t with
    | nil => cases hread
    | cons d t =>
      rw [List.flatMap_cons, List.append_assoc, unescape?_escape] at hread
      obtain ⟨hfirst, hrest⟩ := Prod.mk.inj (Option.some.inj hread)
      obtain ⟨hothers, hafter⟩ := ih hrest.symm
      rw [hfirst, hothers]
      exact ⟨rfl, hafter⟩

/-- The code of a character is printable. -/
theorem isPrintable_of_mem_code {c d : Char} (h : d ∈ code c) : isPrintable d = true := by
  have hmarks : ['\\', 'x', 'u', 'U'].all isPrintable = true := by decide
  have hmark {mark : Char} (hmem : mark ∈ ['\\', 'x', 'u', 'U']) : isPrintable mark = true :=
    List.all_eq_true.mp hmarks mark hmem
  have hcode {mark : Char} {width : Nat} (hmem : mark ∈ ['\\', 'x', 'u', 'U'])
      (hd : d ∈ '\\' :: mark :: Text.hex width c.toNat) : isPrintable d = true := by
    rcases List.mem_cons.mp hd with rfl | hd
    · exact hmark (by decide)
    · rcases List.mem_cons.mp hd with rfl | hd
      · exact hmark hmem
      · exact Text.isPrintable_of_mem_hex hd
  rw [code] at h
  split at h
  · exact hcode (by decide) h
  · split at h
    · exact hcode (by decide) h
    · exact hcode (by decide) h

/-- What stands for a character between printable quotes is printable. -/
theorem isPrintable_of_mem_escape {quote c d : Char} (hquote : isPrintable quote = true)
    (h : d ∈ escape quote c) : isPrintable d = true := by
  have hbackslash : isPrintable '\\' = true := by decide
  rw [escape] at h
  split at h
  · rename_i hself
    have hc : isPrintable c = true := by
      rcases hself with rfl | rfl
      · exact hquote
      · exact hbackslash
    rcases List.mem_cons.mp h with rfl | h
    · exact hbackslash
    · rw [List.mem_singleton.mp h]
      exact hc
  · split at h
    · rename_i hprintable
      rw [List.mem_singleton.mp h]
      exact hprintable
    · split at h
      · rename_i letter hletter
        have hall : controls.all (fun control => isPrintable control.2) = true := by decide
        rcases List.mem_cons.mp h with rfl | h
        · exact hbackslash
        · rw [List.mem_singleton.mp h]
          exact List.all_eq_true.mp hall (c, letter) (mem_controls hletter)
      · exact isPrintable_of_mem_code h

/-- A quoted text is printable. -/
theorem isPrintable_of_mem_text {t : Text} {c : Char} (h : c ∈ text t) : isPrintable c = true := by
  have hquote : isPrintable '"' = true := by decide
  rcases List.mem_cons.mp h with rfl | h
  · exact hquote
  · rcases List.mem_append.mp h with h | h
    · obtain ⟨d, -, hd⟩ := List.mem_flatMap.mp h
      exact isPrintable_of_mem_escape hquote hd
    · rw [List.mem_singleton.mp h]
      exact hquote

end Quoted

end Lox
