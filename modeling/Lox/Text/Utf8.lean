import Lox.Text.Basic

/-!
# Text from bytes

Bytes are read as UTF-8. A byte that starts no valid encoding (a stray continuation byte, an
overlong or truncated sequence, a surrogate, a code point past U+10FFFF) becomes one replacement
character, and reading goes on at the byte after it, so every byte string is a text.
-/

namespace Lox.Utf8

/-- The six bits carried by a continuation byte. -/
def continuation? (byte : UInt8) : Option Nat :=
  if 0x80 ≤ byte ∧ byte < 0xC0 then some (byte.toNat - 0x80) else none

/-- The character of a code point, refused below the least code of the sequence's length. -/
def scalar? (least code : Nat) : Option Char :=
  if least ≤ code ∧ code.isValidChar then some (Char.ofNat code) else none

/-- The character encoded at the front, with the number of continuation bytes it takes. -/
def first? : List UInt8 → Option (Char × Nat)
  | [] => none
  | lead :: rest =>
    if lead < 0x80 then some (Char.ofNat lead.toNat, 0)
    else if lead < 0xC0 then none
    else if lead < 0xE0 then
      match rest.take 1 |>.mapM continuation? with
      | some [a] => (scalar? 0x80 ((lead.toNat - 0xC0) * 64 + a)).map (·, 1)
      | _ => none
    else if lead < 0xF0 then
      match rest.take 2 |>.mapM continuation? with
      | some [a, b] => (scalar? 0x800 (((lead.toNat - 0xE0) * 64 + a) * 64 + b)).map (·, 2)
      | _ => none
    else if lead < 0xF8 then
      match rest.take 3 |>.mapM continuation? with
      | some [a, b, c] =>
        (scalar? 0x10000 ((((lead.toNat - 0xF0) * 64 + a) * 64 + b) * 64 + c)).map (·, 3)
      | _ => none
    else none

/-- Read the bytes after the first `taken` of them, which belong to a character already read. -/
def decodeAfter : Nat → List UInt8 → Text
  | _, [] => []
  | taken + 1, _ :: rest => decodeAfter taken rest
  | 0, byte :: rest =>
    match first? (byte :: rest) with
    | some (c, more) => c :: decodeAfter more rest
    | none => Text.replacement :: decodeAfter 0 rest

/-- The text of a byte string. -/
def decode (bytes : List UInt8) : Text := decodeAfter 0 bytes

/-- The bytes of a text. -/
def encode (text : Text) : List UInt8 := text.flatMap String.utf8EncodeChar

end Lox.Utf8
