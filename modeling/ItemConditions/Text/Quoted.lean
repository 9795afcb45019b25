import ItemConditions.Text.Invisible

/-!
# Texts quoted in messages

A message shows a text between double quotes, with characters that have no glyph of their own
written as escapes.

## Main definitions

* `Text.quoted`: a text between quotes
-/

namespace ItemConditions.Text

/-- A character as a message shows it. -/
def shown (c : Char) : Text :=
  if c = '"' then ['\\', '"']
  else if c = '\\' then ['\\', '\\']
  else if c = '\n' then ['\\', 'n']
  else if c = '\r' then ['\\', 'r']
  else if c = '\t' then ['\\', 't']
  else if c.toNat = 0 then ['\\', '0']
  else if isInvisible c then '\\' :: 'u' :: '\x7b' :: (Nat.toDigits 16 c.toNat ++ ['\x7d'])
  else [c]

/-- A text between double quotes. -/
def quoted (t : Text) : Text := '"' :: (t.flatMap shown ++ ['"'])

end ItemConditions.Text
