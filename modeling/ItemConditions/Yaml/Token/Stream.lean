import ItemConditions.Yaml.Token.Name
import ItemConditions.Yaml.Token.Scalar

/-!
# The tokens of a text

A token that may turn out to be the key of a mapping waits in a queue until the colon behind it is
seen or can no longer come, for only then is it known whether a key, and a mapping, starts before
it. Indentation opens blocks where a dash or a key stands further right than the block around it,
and closes them where a line starts further left.

## Main definitions

* `Yaml.Scan`: a scan on its way
* `Yaml.Scan.step`: the next tokens
* `Yaml.Scan.advance`: the next tokens, as far as the text can be read
* `Yaml.Token.ofText`: the tokens of a text, and the fault that ended them if there was one
-/

namespace ItemConditions.Yaml

/-- A place where the key of a mapping may have started. -/
structure PossibleKey where
  /-- In a block, nothing but a key can start at this column. -/
  required : Bool
  /-- The number of the key's first token. -/
  number : Nat
  mark : Mark

/-- **A scan on its way.** -/
structure Scan where
  cursor : Cursor
  /-- The column of the block around the cursor, if there is one, and those around that. -/
  indent : Option Nat := none
  indents : List (Option Nat) := []
  /-- A key may start at the cursor. -/
  keyAllowed : Bool := true
  /-- The possible key of each open bracket, the innermost first, and of the block around them. -/
  keys : List (Option PossibleKey) := [none]
  /-- The tokens that wait. -/
  queue : List Token := []
  /-- The number of tokens that no longer wait. -/
  released : Nat := 0
  ended : Bool := false
  /-- So many bytes can be read, if not all. -/
  readable? : Option Nat := none

namespace Scan

/-- The cursor stands inside brackets. -/
def inFlow (s : Scan) : Bool := 1 < s.keys.length

/-- The place of the cursor. -/
def mark (s : Scan) : Mark := s.cursor.mark

/-- One more token waits. -/
def push (s : Scan) (t : Token) : Scan := { s with queue := s.queue ++ [t] }

/-- A token in front of the one with a given number. -/
def insertAt (s : Scan) (number : Nat) (t : Token) : Scan :=
  { s with queue := s.queue.insertIdx (number - s.released) t }

/-! ## Possible keys -/

/-- A key stays on one line and has at most so many bytes before its colon. -/
def keyReach : Nat := 1024

/-- The key can no longer come. -/
def isStale (s : Scan) (k : PossibleKey) : Bool :=
  k.mark.line < s.mark.line || k.mark.index + keyReach < s.mark.index

/-- Keys that can no longer come are given up; a required one is a fault. -/
def dropStale (s : Scan) : Except Fault Scan :=
  if s.keys.any fun k => k.any fun k => s.isStale k && k.required then
    s.cursor.fail .keyWithoutColon
  else .ok { s with keys := s.keys.map fun k => k.filter fun k => !s.isStale k }

/-- The innermost possible key is given up; a required one is a fault. -/
def dropKey (s : Scan) : Except Fault Scan :=
  match s.keys with
  | some k :: keys =>
    if k.required then s.cursor.fail .keyWithoutColon else .ok { s with keys := none :: keys }
  | _ => .ok s

/-- A key may start at the cursor, if one is allowed there. -/
def markKey (s : Scan) : Except Fault Scan :=
  if !s.keyAllowed then .ok s
  else do
    let s ← s.dropKey
    let k : PossibleKey :=
      { required := !s.inFlow && s.indent == some s.mark.column
        number := s.released + s.queue.length
        mark := s.mark }
    return { s with keys := some k :: s.keys.tail }

/-! ## Indentation -/

/-- A block is opened at a column, if that lies further right than the block around it. `at?` is the
number of the token in front of which it opens. -/
def openBlock (s : Scan) (column : Nat) (at? : Option Nat) (kind : TokenKind) (mark : Mark) :
    Scan :=
  if s.inFlow || s.indent.any fun n => column ≤ n then s
  else
    let s := { s with indent := some column, indents := s.indent :: s.indents }
    let t : Token := ⟨kind, mark, mark⟩
    match at? with
    | some number => s.insertAt number t
    | none => s.push t

/-- Blocks that lie further right than a column are closed. `none` closes all. -/
def closeBlocks (column : Option Nat) : List (Option Nat) → Scan → Scan
  | [], s => s
  | outer :: indents, s =>
    if s.indent.any fun n => column.all (· < n) then
      closeBlocks column indents
        { s.push ⟨.blockEnd, s.mark, s.mark⟩ with indent := outer, indents := indents }
    else s

/-- The blocks around the cursor after a line's start is known. -/
def unroll (s : Scan) (column : Option Nat) : Scan :=
  if s.inFlow then s else closeBlocks column s.indents s

/-! ## Between tokens -/

/-- The mark of the byte order. -/
def byteOrderMark : Char := Char.ofNat 0xFEFF

/-- The blanks, comments and line ends in front of the next token. A line may start with a mark of
the byte order, which fills a column. A line end in a block allows a key again; before a key is
allowed, tabs are blanks too. -/
def skipToToken : Nat → Scan → Scan
  | 0, s => s
  | fuel + 1, s =>
    let c := if s.mark.column = 0 ∧ s.cursor.startsWith byteOrderMark then s.cursor.skip
      else s.cursor
    let c := c.dropWhile fun x => x == ' ' || (x == '\t' && (s.inFlow || !s.keyAllowed))
    let c := if c.startsWith '#' then c.dropLine else c
    if c.nextIs isBreak then
      skipToToken fuel { s with cursor := c.skipLine, keyAllowed := s.keyAllowed || !s.inFlow }
    else { s with cursor := c }

/-! ## Tokens -/

/-- A token of so many characters at the cursor. -/
def take (s : Scan) (n : Nat) (kind : TokenKind) : Scan :=
  let behind := s.cursor.skipMany n
  { s.push ⟨kind, s.mark, behind.mark⟩ with cursor := behind }

/-- The end of the text, on a line of its own. -/
def finish (s : Scan) : Except Fault Scan := do
  let mark :=
    if s.mark.column = 0 then s.mark else { s.mark with line := s.mark.line + 1, column := 0 }
  let s := { s with cursor := { s.cursor with mark := mark } }
  let s ← (s.unroll none).dropKey
  return { s.push ⟨.streamEnd, mark, mark⟩ with keyAllowed := false, ended := true }

/-- A directive. -/
def directive (s : Scan) : Except Fault Scan := do
  let s ← (s.unroll none).dropKey
  let (t, c) ← s.cursor.directive
  return { s.push t with keyAllowed := false, cursor := c }

/-- Three dashes or points. -/
def documentIndicator (s : Scan) (kind : TokenKind) : Except Fault Scan := do
  let s ← (s.unroll none).dropKey
  return { s with keyAllowed := false }.take 3 kind

/-- An opening bracket. -/
def openFlow (s : Scan) (kind : TokenKind) : Except Fault Scan := do
  let s ← s.markKey
  return { s with keyAllowed := true, keys := none :: s.keys }.take 1 kind

/-- A closing bracket. -/
def closeFlow (s : Scan) (kind : TokenKind) : Except Fault Scan := do
  let s ← s.dropKey
  let keys := if s.inFlow then s.keys.tail else s.keys
  return { s with keyAllowed := false, keys := keys }.take 1 kind

/-- A comma between brackets. -/
def flowEntry (s : Scan) : Except Fault Scan := do
  let s ← s.dropKey
  return { s with keyAllowed := true }.take 1 .flowEntry

/-- A dash. -/
def blockEntry (s : Scan) : Except Fault Scan :=
  if !s.inFlow && !s.keyAllowed then s.cursor.fail .entryNotAllowed
  else do
    let s ← (s.openBlock s.mark.column none .blockSequenceStart s.mark).dropKey
    return { s with keyAllowed := true }.take 1 .blockEntry

/-- A question mark. -/
def explicitKey (s : Scan) : Except Fault Scan :=
  if !s.inFlow && !s.keyAllowed then s.cursor.fail .keyNotAllowed
  else do
    let s ← (s.openBlock s.mark.column none .blockMappingStart s.mark).dropKey
    return { s with keyAllowed := !s.inFlow }.take 1 .key

/-- A colon. Behind a possible key, that key starts before its first token. -/
def value (s : Scan) : Except Fault Scan :=
  match s.keys with
  | some k :: keys =>
    let s := { s with keys := none :: keys }.insertAt k.number ⟨.key, k.mark, k.mark⟩
    let s := s.openBlock k.mark.column (some k.number) .blockMappingStart k.mark
    .ok ({ s with keyAllowed := false }.take 1 .value)
  | _ =>
    if !s.inFlow && !s.keyAllowed then s.cursor.fail .valueNotAllowed
    else
      let s := s.openBlock s.mark.column none .blockMappingStart s.mark
      .ok ({ s with keyAllowed := !s.inFlow }.take 1 .value)

/-- A token that has been read up to a cursor, and may be a key. -/
def keyLike (s : Scan) (read : Scan → Except Fault (TokenKind × Cursor)) : Except Fault Scan := do
  let s ← s.markKey
  let (kind, c) ← read s
  return { s.push ⟨kind, s.mark, c.mark⟩ with keyAllowed := false, cursor := c }

/-- An anchor or an alias. -/
def named (s : Scan) (kind : Text → TokenKind) : Except Fault Scan :=
  s.keyLike fun s => s.cursor.name.map fun (name, c) => (kind name, c)

/-- A tag. -/
def tag (s : Scan) : Except Fault Scan :=
  s.keyLike fun s => (s.cursor.tag s.inFlow).map fun (handle, ending, c) => (.tag handle ending, c)

/-- A quoted scalar. -/
def quoted (s : Scan) (single : Bool) : Except Fault Scan :=
  s.keyLike fun s => (s.cursor.quotedScalar single).map fun (t, c) =>
    (.scalar t (if single then .singleQuoted else .doubleQuoted), c)

/-- A block scalar. -/
def block (s : Scan) (literal : Bool) : Except Fault Scan := do
  let s ← s.dropKey
  let (t, c) ← s.cursor.blockScalar literal s.indent
  let kind : TokenKind := .scalar t (if literal then .literal else .folded)
  return { s.push ⟨kind, s.mark, c.mark⟩ with keyAllowed := true, cursor := c }

/-- A plain scalar. Behind a line end a key may start again. -/
def plain (s : Scan) : Except Fault Scan := do
  let s ← s.markKey
  let least := (s.indent.map (· + 1)).getD 0
  let (t, broken, c) ← s.cursor.plainScalar s.inFlow least
  return { s.push ⟨.scalar t .plain, s.mark, c.mark⟩ with keyAllowed := broken, cursor := c }

/-- A character that starts no plain scalar unless the character behind it allows it. -/
def isIndicator (c : Char) : Bool := "-?:,[]\x7b\x7d#&*!|>'\"%@`".toList.contains c

/-- A plain scalar starts at the cursor. -/
def startsPlain (s : Scan) : Bool :=
  s.cursor.nextIs fun x =>
    let next := s.cursor.ahead? 1
    !(isIndicator x || isGap x || isBreak x)
      || (x == '-' && !next.any isGap)
      || (!s.inFlow && (x == '?' || x == ':') && !isGapOrEnd next)

/-- **The next tokens**, by the character at the cursor. -/
def step (s : Scan) : Except Fault Scan := do
  let s ← (s.skipToToken s.cursor.fuel).dropStale
  let s := s.unroll (some s.mark.column)
  match s.cursor.head? with
  | none => s.finish
  | some x =>
    let ends := isGapOrEnd (s.cursor.ahead? 1)
    if s.mark.column = 0 ∧ x = '%' then s.directive
    else if s.cursor.atIndicator '-' then s.documentIndicator .documentStart
    else if s.cursor.atIndicator '.' then s.documentIndicator .documentEnd
    else if x = '[' then s.openFlow .flowSequenceStart
    else if x = '\x7b' then s.openFlow .flowMappingStart
    else if x = ']' then s.closeFlow .flowSequenceEnd
    else if x = '\x7d' then s.closeFlow .flowMappingEnd
    else if x = ',' then s.flowEntry
    else if x = '-' ∧ ends then s.blockEntry
    else if x = '?' ∧ (s.inFlow ∨ ends) then s.explicitKey
    else if x = ':' ∧ (s.inFlow ∨ ends) then s.value
    else if x = '*' then s.named .alias
    else if x = '&' then s.named .anchor
    else if x = '!' then s.tag
    else if x = '|' ∧ !s.inFlow then s.block true
    else if x = '>' ∧ !s.inFlow then s.block false
    else if x = '\'' then s.quoted true
    else if x = '"' then s.quoted false
    else if s.startsPlain then s.plain
    else s.cursor.fail .startsNoToken

/-! ## The whole text -/

/-- The bytes in front of a place can be read. -/
def canRead (s : Scan) (mark : Mark) : Bool := s.readable?.all fun n => mark.index < n

/-- **The next tokens, as far as the text can be read.** -/
def advance (s : Scan) : Except Fault Scan :=
  let outcome := s.step.bind dropStale
  let reached :=
    match outcome with
    | .ok next => next.mark
    | .error e => e.mark?.getD s.mark
  if s.canRead reached then outcome else .error (.here .forbiddenCharacter {})

/-- The first token that waits may still turn out to be a key. -/
def headMayBeKey (s : Scan) : Bool := s.keys.any fun k => k.any fun k => k.number == s.released

/-- The tokens that need no longer wait, and the scan without them. -/
def release (s : Scan) : List Token → List Token × Scan
  | [] => ([], { s with queue := [] })
  | t :: queue =>
    if s.headMayBeKey then ([], { s with queue := t :: queue })
    else
      let (ts, s) := release { s with released := s.released + 1 } queue
      (t :: ts, s)

/-- The tokens from here on, and the fault that ended them if there was one. -/
def run : Nat → Scan → List Token × Option Fault
  | 0, _ => ([], none)
  | fuel + 1, s =>
    match s.advance with
    | .error e => ([], some e)
    | .ok s =>
      let (ts, s) := s.release s.queue
      if s.ended then (ts, none)
      else
        let (more, e) := run fuel s
        (ts ++ more, e)

end Scan

/-- A character that may stand in a text at all. -/
def isAllowed (c : Char) : Bool :=
  let n := c.toNat
  n == 0x09 || n == 0x0A || n == 0x0D || (0x20 ≤ n && n ≤ 0x7E) || n == 0x85
    || (0xA0 ≤ n && n ≤ 0xD7FF) || (0xE000 ≤ n && n ≤ 0xFFFD) || 0x10000 ≤ n

/-- A text is read in pieces of at most so many bytes. -/
def pieceSize : Nat := 0x4000

/-- The number of bytes in front of the first piece with a character that may not stand in a text.
The piece that is read now starts at `start` and has `size` bytes so far. -/
def refusedPiece? : Nat → Nat → Text → Option Nat
  | _, _, [] => none
  | start, size, c :: r =>
    let full := pieceSize < size + c.utf8Size
    let start := if full then start + size else start
    let size := if full then 0 else size
    if isAllowed c then refusedPiece? start (size + c.utf8Size) r else some start

/-- The tokens of a text, and the fault that ended them if there was one. A piece with a
character that may not stand in a text at all is a fault as soon as it is reached, and the first
piece is reached before the first token. -/
def Token.ofText (t : Text) : List Token × Option Fault :=
  let readable? := refusedPiece? 0 0 t
  if readable? = some 0 then ([], some (.here .forbiddenCharacter {}))
  else
    let (ts, e) := Scan.run (t.length + 2) { cursor := .ofText t, readable? := readable? }
    (⟨.streamStart, {}, {}⟩ :: ts, e)

end ItemConditions.Yaml
