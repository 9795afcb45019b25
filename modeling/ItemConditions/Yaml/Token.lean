import ItemConditions.Yaml.Cursor

/-!
# Tokens of a YAML text

What the characters of a text spell: indicators, names, tags and scalars, and the starts and ends of
blocks that only the indentation shows.

## Main definitions

* `Yaml.Tag`: a tag or a piece of one
* `Yaml.ScalarStyle`: how a scalar is written
* `Yaml.TokenKind`, `Yaml.Token`: a token, and where it starts and ends
-/

namespace ItemConditions.Yaml

/-- **A tag or a piece of one**, as bytes: percent signs can spell bytes that are no text. -/
abbrev Tag := Utf8.Bytes

/-- How a scalar is written. -/
inductive ScalarStyle where
  | plain
  | singleQuoted
  | doubleQuoted
  | literal
  | folded
deriving DecidableEq, Repr

/-- **What a token is.** -/
inductive TokenKind where
  | streamStart
  | streamEnd
  | version (major minor : Nat)
  | tagHandle (handle : Text) (start : Tag)
  | documentStart
  | documentEnd
  | blockSequenceStart
  | blockMappingStart
  | blockEnd
  | flowSequenceStart
  | flowSequenceEnd
  | flowMappingStart
  | flowMappingEnd
  | blockEntry
  | flowEntry
  | key
  | value
  | alias (name : Text)
  | anchor (name : Text)
  | tag (handle : Text) (ending : Tag)
  | scalar (text : Text) (style : ScalarStyle)
deriving DecidableEq, Repr

/-- **A token**, and where it starts and ends. -/
structure Token where
  kind : TokenKind
  start : Mark
  stop : Mark
deriving DecidableEq, Repr

end ItemConditions.Yaml
