import ItemConditions.Text.Utf8
import ItemConditions.Yaml.Fault

/-!
# Reading a text from front to back

A cursor is the rest of a text with the place where it starts. Five characters and one pair of
characters end a line.

## Main definitions

* `Yaml.isBreak`, `Yaml.isGap`: line ends, and blanks inside a line
* `Yaml.Cursor`: the rest of a text
* `Yaml.Cursor.skip`, `Yaml.Cursor.skipLine`: one step, over a character or over a line end
-/

namespace ItemConditions.Yaml

/-- A character that ends a line. -/
def isBreak (c : Char) : Bool :=
  c == '\n' || c == '\r' || c.toNat == 0x85 || c.toNat == 0x2028 || c.toNat == 0x2029

/-- A blank inside a line. -/
def isGap (c : Char) : Bool := c == ' ' || c == '\t'

/-- The end of the text, a line end or a blank. -/
def isGapOrEnd : Option Char → Bool
  | none => true
  | some c => isGap c || isBreak c

/-- The end of the text or a line end. -/
def isBreakOrEnd : Option Char → Bool
  | none => true
  | some c => isBreak c

/-- A character of names and handles. -/
def isWord (c : Char) : Bool := c.isAlphanum || c == '_' || c == '-'

/-- **The rest of a text**, and where it starts. -/
structure Cursor where
  rest : Text
  mark : Mark := {}
  /-- The number of characters of the whole text, which bounds every walk over the rest. -/
  size : Nat
deriving Repr, Inhabited

namespace Cursor

/-- The start of a text. -/
def ofText (t : Text) : Cursor := { rest := t, size := t.length }

/-- More steps than any walk over the rest takes. -/
def fuel (c : Cursor) : Nat := c.size + 1

/-- The next character. -/
def head? (c : Cursor) : Option Char := c.rest.head?

/-- The character so many places ahead. -/
def ahead? (c : Cursor) (n : Nat) : Option Char := c.rest[n]?

/-- The next character is this one. -/
def startsWith (c : Cursor) (x : Char) : Bool := c.head? == some x

/-- The next character has a property. -/
def nextIs (c : Cursor) (p : Char → Bool) : Bool := c.head?.any p

/-- **One character further**, on the same line. -/
def skip (c : Cursor) : Cursor :=
  match c.rest with
  | [] => c
  | x :: r =>
    { c with
      rest := r
      mark := { c.mark with index := c.mark.index + x.utf8Size, column := c.mark.column + 1 } }

/-- So many characters further, on the same line. -/
def skipMany (c : Cursor) (n : Nat) : Cursor :=
  { c with
    rest := c.rest.drop n
    mark :=
      { c.mark with
        index := c.mark.index + (Utf8.encode (c.rest.take n)).length
        column := c.mark.column + n } }

/-- The start of the next line, so many bytes further. -/
def nextLine (mark : Mark) (n : Nat) : Mark := ⟨mark.index + n, mark.line + 1, 0⟩

/-- **One line end further**; elsewhere the cursor stays. -/
def skipLine (c : Cursor) : Cursor :=
  match c.rest with
  | '\r' :: '\n' :: r => { c with rest := r, mark := nextLine c.mark 2 }
  | x :: r => if isBreak x then { c with rest := r, mark := nextLine c.mark x.utf8Size } else c
  | [] => c

/-- The line end as the text of a scalar holds it: a line feed, or one of the two separators of
Unicode. -/
def lineText (c : Cursor) : Text :=
  match c.rest with
  | [] => []
  | x :: _ =>
    if x.toNat = 0x2028 ∨ x.toNat = 0x2029 then [x] else if isBreak x then ['\n'] else []

/-- The characters that have a property and end no line, and the cursor behind them. -/
def takeWhile (c : Cursor) (p : Char → Bool) : Text × Cursor :=
  let taken := c.rest.takeWhile p
  (taken, c.skipMany taken.length)

/-- The cursor behind the characters that have a property and end no line. -/
def dropWhile (c : Cursor) (p : Char → Bool) : Cursor := (c.takeWhile p).2

/-- The cursor at the end of its line. -/
def dropLine (c : Cursor) : Cursor := c.dropWhile fun x => !isBreak x

/-- Three of a character start a line, and a blank or an end follows. -/
def atIndicator (c : Cursor) (x : Char) : Bool :=
  c.mark.column == 0
    && c.rest.take 3 == [x, x, x] && isGapOrEnd (c.ahead? 3)

/-- A document starts or ends here. -/
def atDocumentIndicator (c : Cursor) : Bool := c.atIndicator '-' || c.atIndicator '.'

/-- A fault at the cursor. -/
def fail {α : Type} (c : Cursor) (problem : Problem) : Except Fault α :=
  .error (.here problem c.mark)

end Cursor

end ItemConditions.Yaml
