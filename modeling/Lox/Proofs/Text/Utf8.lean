import Lox.Text.Utf8

/-!
# Bytes cut at a plain character

A byte below 0x80 is a character by itself and part of no other encoding. So bytes can be cut before
and after it: what stands before is read as if it stood alone, broken encodings included. Texts of
plain characters have the order of their bytes.
-/

namespace Lox.Utf8

/-- A byte below 0x80 continues no character. -/
theorem continuation?_of_lt {byte : UInt8} (h : byte < 0x80) : continuation? byte = none := by
  rw [continuation?, if_neg]
  rintro ⟨hle, -⟩
  exact UInt8.not_le.mpr h hle

/-- A byte below 0x80 is a character by itself. -/
theorem decode_cons_of_lt {byte : UInt8} (h : byte < 0x80) (rest : List UInt8) :
    decode (byte :: rest) = Char.ofNat byte.toNat :: decode rest := by
  have hfirst : first? (byte :: rest) = some (Char.ofNat byte.toNat, 0) := by
    rw [first?, if_pos h]
  simp only [decode, decodeAfter, hfirst]

/-- A byte below 0x80 does not complete the character before it. -/
theorem first?_append {byte : UInt8} (h : byte < 0x80) (lead : UInt8) (bytes rest : List UInt8) :
    first? (lead :: (bytes ++ byte :: rest)) = first? (lead :: bytes) := by
  have hnone := continuation?_of_lt h
  -- At most three bytes after the leading one are looked at.
  rcases bytes with _ | ⟨x, _ | ⟨y, _ | ⟨z, bytes⟩⟩⟩
  · simp [first?, hnone]
  · cases hx : continuation? x <;> simp [first?, hnone, hx]
  · cases hx : continuation? x <;> cases hy : continuation? y <;> simp [first?, hnone, hx, hy]
  · simp [first?]

/-- Every continuation byte carries one number. -/
theorem length_of_mapM {bytes : List UInt8} {parts : List Nat}
    (h : bytes.mapM continuation? = some parts) : parts.length = bytes.length := by
  induction bytes generalizing parts with
  | nil =>
    cases h
    rfl
  | cons byte bytes ih =>
    rw [List.mapM_cons] at h
    obtain ⟨part, -, h⟩ := Option.bind_eq_some_iff.mp h
    obtain ⟨others, hothers, h⟩ := Option.bind_eq_some_iff.mp h
    cases h
    rw [List.length_cons, List.length_cons, ih hothers]

/-- A character takes no more continuation bytes than there are. -/
theorem le_of_first? {lead : UInt8} {bytes : List UInt8} {c : Char} {more : Nat}
    (h : first? (lead :: bytes) = some (c, more)) : more ≤ bytes.length := by
  have hscalar : ∀ {count : Nat} {scalar : Option Char},
      scalar.map (·, count) = some (c, more) → more = count := by
    intro count scalar hmap
    obtain ⟨d, -, hpair⟩ := Option.map_eq_some_iff.mp hmap
    exact (Prod.mk.inj hpair).2.symm
  have hlength : ∀ {count : Nat} {parts : List Nat},
      (bytes.take count).mapM continuation? = some parts → parts.length = count →
        count ≤ bytes.length := by
    intro count parts hparts hcount
    have htaken := length_of_mapM hparts
    rw [List.length_take] at htaken
    omega
  rw [first?] at h
  split at h
  · cases h
    exact Nat.zero_le _
  · split at h
    · cases h
    · split at h
      · split at h
        · rename_i hparts
          rw [hscalar h]
          exact hlength hparts rfl
        · cases h
      · split at h
        · split at h
          · rename_i hparts
            rw [hscalar h]
            exact hlength hparts rfl
          · cases h
        · split at h
          · split at h
            · rename_i hparts
              rw [hscalar h]
              exact hlength hparts rfl
            · cases h
          · cases h

/-- Bytes are read up to a byte below 0x80 as if they stood alone, also from within a character. -/
theorem decodeAfter_append {byte : UInt8} (h : byte < 0x80) {taken : Nat} {bytes : List UInt8}
    (htaken : taken ≤ bytes.length) (rest : List UInt8) :
    decodeAfter taken (bytes ++ byte :: rest) =
      decodeAfter taken bytes ++ decode (byte :: rest) := by
  -- The bound on `taken` is kept: a character takes continuation bytes that stand before the cut.
  induction bytes generalizing taken with
  | nil =>
    cases Nat.le_zero.mp htaken
    rfl
  | cons lead bytes ih =>
    cases taken with
    | succ taken => exact ih (Nat.le_of_succ_le_succ htaken)
    | zero =>
      simp only [List.cons_append, decodeAfter, first?_append h]
      cases hfirst : first? (lead :: bytes) with
      | none => exact congrArg (Text.replacement :: ·) (ih (Nat.zero_le _))
      | some found =>
        obtain ⟨c, more⟩ := found
        exact congrArg (c :: ·) (ih (le_of_first? hfirst))

/-- Bytes can be cut at a byte below 0x80. -/
theorem decode_append_cons {byte : UInt8} (h : byte < 0x80) (bytes rest : List UInt8) :
    decode (bytes ++ byte :: rest) = decode bytes ++ Char.ofNat byte.toNat :: decode rest := by
  rw [← decode_cons_of_lt h]
  exact decodeAfter_append h (Nat.zero_le _) rest

/-- A character below U+0080 is one byte. -/
theorem utf8EncodeChar_of_lt {c : Char} (h : c.toNat < 128) :
    String.utf8EncodeChar c = [UInt8.ofNat c.toNat] :=
  if_pos (Nat.le_of_lt_succ h)

/-- The bytes of texts below U+0080 have the order of the texts. -/
theorem encode_lt_encode {text other : Text} (htext : ∀ c ∈ text, c.toNat < 128)
    (hother : ∀ c ∈ other, c.toNat < 128) (h : text < other) : encode text < encode other := by
  induction text generalizing other with
  | nil =>
    cases other with
    | nil => exact absurd h (List.lt_irrefl [])
    | cons d other =>
      rw [List.forall_mem_cons] at hother
      rw [encode, encode, List.flatMap_cons, utf8EncodeChar_of_lt hother.1]
      exact List.nil_lt_cons _ _
  | cons c text ih =>
    cases other with
    | nil => exact absurd h (List.not_lt_nil _)
    | cons d other =>
      rw [List.forall_mem_cons] at htext hother
      rw [encode, encode, List.flatMap_cons, List.flatMap_cons, utf8EncodeChar_of_lt htext.1,
        utf8EncodeChar_of_lt hother.1, List.singleton_append, List.singleton_append,
        List.cons_lt_cons_iff]
      rcases List.cons_lt_cons_iff.mp h with hlt | ⟨rfl, hrest⟩
      · left
        have hcodes : c.toNat < d.toNat := hlt
        rw [UInt8.lt_iff_toNat_lt, UInt8.toNat_ofNat', UInt8.toNat_ofNat']
        omega
      · exact .inr ⟨rfl, ih htext.2 hother.2 hrest⟩

end Lox.Utf8
