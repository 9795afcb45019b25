import ItemConditions.Binary64.Numeral
import ItemConditions.Value

/-!
# Writing JSON

The compact text of a value, and the text with one item a line, indented by two spaces.

## Main definitions

* `Json.quote`: a text in quotes
* `Json.compact`, `Json.pretty`: the two texts of a value
-/

namespace ItemConditions.Json

/-- The hexadecimal digit of a number below sixteen. -/
def hexDigit (n : Nat) : Char := Nat.digitChar n

/-- A character inside quotes: the quote, the backslash and control characters are escaped, all
others stand as they are. -/
def escape (c : Char) : Text :=
  if c = '"' then ['\\', '"']
  else if c = '\\' then ['\\', '\\']
  else if c = '\n' then ['\\', 'n']
  else if c = '\r' then ['\\', 'r']
  else if c = '\t' then ['\\', 't']
  else if c.toNat = 0x08 then ['\\', 'b']
  else if c.toNat = 0x0C then ['\\', 'f']
  else if c.toNat < 0x20 then
    ['\\', 'u', '0', '0', hexDigit (c.toNat / 16), hexDigit (c.toNat % 16)]
  else [c]

/-- A text in quotes. -/
def quote (t : Text) : Text := '"' :: (t.flatMap escape ++ ['"'])

/-- The text of a number; a number that is not finite has none and is written as `null`. -/
def ofNumber : Number → Text
  | .whole i => Text.ofInt i
  | .real x => (x.toNumeral? true).getD "null".toList

/-- The text of a value without parts. -/
def ofScalar : Value → Text
  | .bool true => "true".toList
  | .bool false => "false".toList
  | .number n => ofNumber n
  | .string s => quote s
  | _ => "null".toList

mutual

/-- **The compact text**: no blanks, keys in order. -/
def compact : Value → Text
  | .sequence [] => "[]".toList
  | .sequence (x :: xs) => '[' :: (compact x ++ compactItems xs)
  | .mapping [] => "{}".toList
  | .mapping ((key, x) :: es) => '{' :: (quote key ++ ':' :: (compact x ++ compactEntries es))
  | scalar => ofScalar scalar

/-- The items after the first, with the closing bracket. -/
def compactItems : List Value → Text
  | [] => [']']
  | x :: xs => ',' :: (compact x ++ compactItems xs)

/-- The entries after the first, with the closing brace. -/
def compactEntries : List (Text × Value) → Text
  | [] => ['}']
  | (key, x) :: es => ',' :: (quote key ++ ':' :: (compact x ++ compactEntries es))

end

/-- A new line, indented by two spaces for each level. -/
def newLine (level : Nat) : Text := '\n' :: Text.repeated (2 * level) ' '

mutual

/-- The text with one item a line, inside so many levels. -/
def prettyAt (level : Nat) : Value → Text
  | .sequence [] => "[]".toList
  | .sequence (x :: xs) =>
    '[' :: (newLine (level + 1) ++ prettyAt (level + 1) x ++ prettyItems level xs)
  | .mapping [] => "{}".toList
  | .mapping ((key, x) :: es) =>
    '{' :: (newLine (level + 1) ++ quote key ++ ": ".toList ++ prettyAt (level + 1) x
      ++ prettyEntries level es)
  | scalar => ofScalar scalar

/-- The items after the first, with the closing bracket. -/
def prettyItems (level : Nat) : List Value → Text
  | [] => newLine level ++ [']']
  | x :: xs => ',' :: (newLine (level + 1) ++ prettyAt (level + 1) x ++ prettyItems level xs)

/-- The entries after the first, with the closing brace. -/
def prettyEntries (level : Nat) : List (Text × Value) → Text
  | [] => newLine level ++ ['}']
  | (key, x) :: es =>
    ',' :: (newLine (level + 1) ++ quote key ++ ": ".toList ++ prettyAt (level + 1) x
      ++ prettyEntries level es)

end

/-- The text with one item a line. -/
def pretty (v : Value) : Text := prettyAt 0 v

end ItemConditions.Json
