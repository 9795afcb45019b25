import ItemConditions.Text.Utf8
import ItemConditions.Value
import ItemConditions.Yaml.Cursor
import ItemConditions.Yaml.Node.Scalar

/-!
# Writing YAML

The block form of a value: one entry or item a line, indented by two spaces. A sequence under a key
stands as far left as the key. A string is written plain where nothing else can be read from it, on
lines of its own where it has several, and else in quotes.

## Main definitions

* `Yaml.Style`, `Yaml.styleOf`: how a string is written
* `Yaml.Style.write`: a string in a style
* `Yaml.write`: the text of a value
-/

namespace ItemConditions.Yaml

/-! ## Styles -/

/-- How a string is written. -/
inductive Style where
  | plain
  | singleQuoted
  | doubleQuoted
  | literal
deriving DecidableEq, Repr

/-- A character that can be written as it is. -/
def isPrintable (c : Char) : Bool :=
  let n := c.toNat
  n == 0x0A || (0x20 ≤ n && n ≤ 0x7E) || (0xA0 ≤ n && n ≤ 0xD7FF)
    || (0xE000 ≤ n && n ≤ 0xFFFD && n != 0xFEFF) || 0x10000 ≤ n

/-- Somewhere a character with one property stands before one with another. -/
def hasPair (p q : Char → Bool) : Text → Bool
  | c :: d :: t => (p c && q d) || hasPair p q (d :: t)
  | _ => false

/-- A space, and no other blank. -/
def isSpace (c : Char) : Bool := c == ' '

/-- A start that is taken for an indicator. -/
def startsIndicator : Text → Bool
  | [] => false
  | c :: t =>
    "#,[]\x7b\x7d&*!|>'\"%@`".toList.contains c
      || ((c == '?' || c == ':' || c == '-') && isGapOrEnd t.head?)
      || (c :: t).take 3 == "---".toList || (c :: t).take 3 == "...".toList

/-- A colon that is taken for the end of a key. -/
def hasKeyColon (t : Text) : Bool :=
  hasPair (· == ':') (fun c => isGapOrEnd (some c)) t || t.getLast? == some ':'

/-- A sharp that is taken for the start of a comment. -/
def hasComment (t : Text) : Bool := hasPair (fun c => isGapOrEnd (some c)) (· == '#') t

/-- The text has several lines. -/
def hasBreak (t : Text) : Bool := t.any isBreak

/-- A text that can be written plain. -/
def allowsPlain (t : Text) : Bool :=
  t.all isPrintable && !hasBreak t && !startsIndicator t && !hasKeyColon t && !hasComment t
    && t.head? != some ' ' && t.getLast? != some ' '

/-- A text that can be written between single quotes. -/
def allowsSingle (t : Text) : Bool :=
  t.all isPrintable && !hasPair isBreak isSpace t && !hasPair isSpace isBreak t

/-- A text that can be written on lines of its own. -/
def allowsLiteral (t : Text) : Bool :=
  t.all isPrintable && !hasPair isSpace isBreak t && t.getLast? != some ' '

/-- A text from which something else than a string would be read, or could be elsewhere. -/
def looksTyped (t : Text) : Bool :=
  hasIdleZero (behindSign t) ||
    match Node.ofPlain t with
    | .ok (.string _) => false
    | _ => true

/-- **How a string is written.** -/
def styleOf (t : Text) : Style :=
  if t.contains '\n' then
    if allowsLiteral t then .literal else .doubleQuoted
  else if !looksTyped t && allowsPlain t then .plain
  else if allowsSingle t then .singleQuoted
  else .doubleQuoted

/-! ## Strings -/

/-- So many spaces. -/
def spaces (n : Nat) : Text := Text.repeated n ' '

/-- A text with a quote in it doubled, whose lines behind the first are indented; `fresh` tells that
a line has just ended. -/
def quotedLines (n : Nat) : Bool → Text → Text
  | fresh, [] => if fresh then spaces n else []
  | fresh, c :: t =>
    if isBreak c then c :: quotedLines n true t
    else
      (if fresh then spaces n else []) ++ (if c = '\'' then ['\'', '\''] else [c])
        ++ quotedLines n false t

/-- A text between single quotes. -/
def inSingleQuotes (n : Nat) (t : Text) : Text :=
  '\'' :: (quotedLines n false t ++ ['\''])

/-- So many hexadecimal digits of a number. -/
def hexDigits (width n : Nat) : Text :=
  let digits := (Nat.toDigits 16 n).map Char.toUpper
  Text.repeated (width - digits.length) '0' ++ digits

/-- A character between double quotes. -/
def escaped (c : Char) : Text :=
  if isPrintable c && !isBreak c && c != '"' && c != '\\' then [c]
  else '\\' ::
    match c.toNat with
    | 0x00 => ['0']
    | 0x07 => ['a']
    | 0x08 => ['b']
    | 0x09 => ['t']
    | 0x0A => ['n']
    | 0x0B => ['v']
    | 0x0C => ['f']
    | 0x0D => ['r']
    | 0x1B => ['e']
    | 0x22 => ['"']
    | 0x5C => ['\\']
    | 0x85 => ['N']
    | 0x2028 => ['L']
    | 0x2029 => ['P']
    | n =>
      if n ≤ 0xFF then 'x' :: hexDigits 2 n
      else if n ≤ 0xFFFF then 'u' :: hexDigits 4 n
      else 'U' :: hexDigits 8 n

/-- A text between double quotes. -/
def inDoubleQuotes (t : Text) : Text := '"' :: (t.flatMap escaped ++ ['"'])

/-- What becomes of the line ends behind a text: a single one is the rule. -/
def chompingSign (t : Text) : Text :=
  match t.reverse with
  | c :: d :: _ => if !isBreak c then ['-'] else if isBreak d then ['+'] else []
  | [c] => if isBreak c then ['+'] else ['-']
  | [] => ['-']

/-- The digit of the indentation, where the first line does not show it. -/
def indentSign (t : Text) : Text :=
  if t.head?.any fun c => isSpace c || isBreak c then ['2'] else []

/-- The lines of a text, each indented unless it is empty. -/
def literalLines (n : Nat) : Bool → Text → Text
  | fresh, [] => if fresh then [] else ['\n']
  | fresh, c :: t =>
    if isBreak c then c :: literalLines n true t
    else (if fresh then spaces n else []) ++ c :: literalLines n false t

/-- A text on lines of its own, the last line end included. -/
def onOwnLines (n : Nat) (t : Text) : Text :=
  '|' :: (indentSign t ++ chompingSign t ++ '\n' :: literalLines n true t)

/-- **A string in a style**, up to the end of its line. Its further lines are indented so far. -/
def Style.write (n : Nat) (t : Text) : Style → Text
  | .plain => t ++ ['\n']
  | .singleQuoted => inSingleQuotes n t ++ ['\n']
  | .doubleQuoted => inDoubleQuotes t ++ ['\n']
  | .literal => onOwnLines n t

/-! ## Values -/

/-- The text of a number. -/
def ofNumber : Number → Text
  | .whole i => Text.ofInt i
  | .real x =>
    (x.toNumeral? false).getD
      (if x.isNaN then ".nan" else if x.isNegative then "-.inf" else ".inf").toList

/-- A value on the rest of a line: one without parts, or an empty collection. -/
def onLine (n : Nat) : Value → Text
  | .null => "null\n".toList
  | .bool b => (if b then "true\n" else "false\n").toList
  | .number x => ofNumber x ++ ['\n']
  | .string s => (styleOf s).write n s
  | .sequence _ => "[]\n".toList
  | .mapping _ => "{}\n".toList

/-- The greatest size in bytes of a key that stands in front of its colon on one line. -/
def simpleKeySize : Nat := 128

/-- A key that stands in front of its colon on one line. -/
def isSimpleKey (t : Text) : Bool :=
  !hasBreak t && (Utf8.encode t).length ≤ simpleKeySize

/-- A key up to its colon: on one line, or led by a question mark on lines of its own. -/
def keyText (n : Nat) (key : Text) : Text :=
  if isSimpleKey key then ((styleOf key).write (n + 2) key).dropLast ++ [':']
  else '?' :: ' ' :: ((styleOf key).write (n + 2) key ++ spaces n ++ [':'])

mutual

/-- A value behind an indicator at a column: its parts start on the same line. -/
def behindIndicator (n : Nat) : Value → Text
  | .sequence (x :: xs) =>
    ' ' :: '-' :: (behindIndicator (n + 2) x ++ itemLines (n + 2) xs)
  | .mapping ((key, x) :: es) =>
    ' ' :: (keyText (n + 2) key ++ behindKey (isSimpleKey key) (n + 2) x ++ entryLines (n + 2) es)
  | v => ' ' :: onLine (n + 2) v

/-- A value behind the colon of a key at a column. Behind a key on one line, its parts start on the
next one, and those of a sequence at the column of the key. -/
def behindKey (isSimple : Bool) (n : Nat) : Value → Text
  | .sequence (x :: xs) =>
    if isSimple then
      '\n' :: (spaces n ++ '-' :: (behindIndicator n x ++ itemLines n xs))
    else ' ' :: '-' :: (behindIndicator (n + 2) x ++ itemLines (n + 2) xs)
  | .mapping ((key, x) :: es) =>
    (if isSimple then '\n' :: spaces (n + 2) else [' '])
      ++ keyText (n + 2) key ++ behindKey (isSimpleKey key) (n + 2) x ++ entryLines (n + 2) es
  | v => ' ' :: onLine (n + 2) v

/-- Items, each on lines of its own, with their dashes at a column. -/
def itemLines (n : Nat) : List Value → Text
  | [] => []
  | x :: xs => spaces n ++ '-' :: (behindIndicator n x ++ itemLines n xs)

/-- Entries, each on lines of its own, with their keys at a column. -/
def entryLines (n : Nat) : List (Text × Value) → Text
  | [] => []
  | (key, x) :: es =>
    spaces n ++ keyText n key ++ behindKey (isSimpleKey key) n x ++ entryLines n es

end

/-- **The text of a value.** -/
def write : Value → Text
  | .sequence (x :: xs) => itemLines 0 (x :: xs)
  | .mapping (e :: es) => entryLines 0 (e :: es)
  | v => onLine 2 v

end ItemConditions.Yaml
