import ItemConditions.Text

/-!
# Texts as bytes

The bytes of a text in UTF-8, and the text of bytes. Bytes that belong to no character are taken
together as far as they could have become one.

## Main definitions

* `Utf8.encode`: the bytes of a text
* `Utf8.decode?`: the text of bytes that are all in order
* `Utf8.decodeLossy`: the text of any bytes
-/

namespace ItemConditions.Utf8

/-- The bytes of a file or a text. -/
abbrev Bytes := List UInt8

/-- **The bytes of a text.** -/
def encode (t : Text) : Bytes := t.flatMap String.utf8EncodeChar

/-- What follows a first byte: the number of further bytes, and the least and the greatest value of
the next one. -/
def further? (lead : Nat) : Option (Nat × Nat × Nat) :=
  if lead < 0xC2 then none
  else if lead ≤ 0xDF then some (1, 0x80, 0xBF)
  else if lead = 0xE0 then some (2, 0xA0, 0xBF)
  else if lead = 0xED then some (2, 0x80, 0x9F)
  else if lead ≤ 0xEF then some (2, 0x80, 0xBF)
  else if lead = 0xF0 then some (3, 0x90, 0xBF)
  else if lead ≤ 0xF3 then some (3, 0x80, 0xBF)
  else if lead = 0xF4 then some (3, 0x80, 0x8F)
  else none

/-- The further bytes of a character: the character, and the bytes behind it. Where a byte does not
fit there is no character, and that byte stays. -/
def continueChar : Nat → Nat → Nat → Nat → Bytes → Option Char × Bytes
  | 0, _, _, code, r => (some (Char.ofNat code), r)
  | _ + 1, _, _, _, [] => (none, [])
  | n + 1, least, greatest, code, b :: r =>
    if least ≤ b.toNat ∧ b.toNat ≤ greatest then
      continueChar n 0x80 0xBF (0x40 * code + b.toNat % 0x40) r
    else (none, b :: r)

/-- The character that starts with a byte, and the bytes behind it. -/
def takeChar (b : UInt8) (r : Bytes) : Option Char × Bytes :=
  if b.toNat < 0x80 then (some (Char.ofNat b.toNat), r)
  else
    match further? b.toNat with
    | none => (none, r)
    | some (n, least, greatest) => continueChar n least greatest (b.toNat % (0x40 >>> n)) r

/-- The characters of at most so many bytes; `none` stands for bytes that belong to none. -/
def chars : Nat → Bytes → List (Option Char)
  | 0, _ => []
  | _ + 1, [] => []
  | n + 1, b :: r =>
    let (c?, r) := takeChar b r
    c? :: chars n r

/-- **The text of bytes** that are all in order. -/
def decode? (bytes : Bytes) : Option Text := (chars bytes.length bytes).mapM id

/-- The character in place of bytes that belong to none. -/
def replacement : Char := Char.ofNat 0xFFFD

/-- The text of any bytes. -/
def decodeLossy (bytes : Bytes) : Text :=
  (chars bytes.length bytes).map fun c? => c?.getD replacement

end ItemConditions.Utf8
