import ItemConditions.Yaml.Token

/-!
# Scalars in a text

The text of a plain, a quoted and a block scalar. In the first two, a single line end between words
counts as a space, and of several the first one is dropped.

## Main definitions

* `Yaml.Fold`: the blanks and line ends between two words
* `Yaml.Cursor.plainScalar`, `Yaml.Cursor.quotedScalar`, `Yaml.Cursor.blockScalar`
-/

namespace ItemConditions.Yaml

/-- **The blanks and line ends between two words.** -/
structure Fold where
  /-- The blanks, as long as no line has ended. -/
  spaces : Text := []
  /-- A line has ended. -/
  broken : Bool := false
  /-- The first line end. -/
  first : Text := []
  /-- The further line ends. -/
  further : Text := []

/-- What the blanks and line ends between two words amount to. -/
def Fold.text (f : Fold) : Text :=
  if !f.broken then f.spaces
  else if f.first = ['\n'] then
    if f.further = [] then [' '] else f.further
  else f.first ++ f.further

namespace Cursor

/-- The blanks and line ends in front of the cursor. `least` is the column that tabs behind a
line end must have reached, if there is one. -/
def fold (least : Option Nat) : Nat → Fold → Cursor → Except Fault (Fold × Cursor)
  | 0, f, c => .ok (f, c)
  | fuel + 1, f, c =>
    match c.head? with
    | none => .ok (f, c)
    | some x =>
      if isGap x then
        if f.broken && x == '\t' && least.any fun n => c.mark.column < n then c.fail .plainTab
        else
          fold least fuel (if f.broken then f else { f with spaces := f.spaces ++ [x] }) c.skip
      else if isBreak x then
        let f :=
          if f.broken then { f with further := f.further ++ c.lineText }
          else { f with spaces := [], broken := true, first := c.lineText }
        fold least fuel f c.skipLine
      else .ok (f, c)

/-! ## Plain scalars -/

/-- An indicator that ends a plain scalar inside brackets. -/
def isFlowIndicator (c : Char) : Bool :=
  c == ',' || c == '[' || c == ']' || c == '\x7b' || c == '\x7d'

/-- The length of the next word of a plain scalar; `none` if a colon stands in a wrong place. -/
def wordLength? (inFlow : Bool) : Text → Option Nat
  | [] => some 0
  | x :: r =>
    if isGap x || isBreak x then some 0
    else if inFlow && x == ':' && r.head?.any fun y => isFlowIndicator y || y == '?' then none
    else if (x == ':' && isGapOrEnd r.head?) || (inFlow && isFlowIndicator x) then some 0
    else (wordLength? inFlow r).map (· + 1)

/-- The cursor at the colon that stands in a wrong place. -/
def wrongColon (inFlow : Bool) : Nat → Cursor → Cursor
  | 0, c => c
  | fuel + 1, c =>
    if inFlow && c.startsWith ':' && (c.ahead? 1).any fun y => isFlowIndicator y || y == '?' then c
    else wrongColon inFlow fuel c.skip

/-- The words of a plain scalar behind a gap, with whether the last gap held a line end. -/
def plainWords (inFlow : Bool) (least : Nat) :
    Nat → Fold → Cursor → Except Fault (Text × Bool × Cursor)
  | 0, f, c => .ok ([], f.broken, c)
  | fuel + 1, f, c =>
    if c.atDocumentIndicator || c.startsWith '#' then .ok ([], f.broken, c)
    else
      match wordLength? inFlow c.rest with
      | none => (wrongColon inFlow c.fuel c).fail .plainColon
      | some n => do
        let word := c.rest.take n
        let behind := c.skipMany n
        let pending := if n = 0 then f else {}
        if behind.nextIs fun x => isGap x || isBreak x then
          let (gap, next) ← behind.fold (some least) behind.fuel pending
          if !inFlow && next.mark.column < least then
            return (if n = 0 then ([], gap.broken, next) else (f.text ++ word, gap.broken, next))
          else
            let (more, broken, next) ← plainWords inFlow least fuel gap next
            return (if n = 0 then (more, broken, next) else (f.text ++ word ++ more, broken, next))
        else
          return (if n = 0 then ([], f.broken, behind) else (f.text ++ word, false, behind))

/-- **A plain scalar**, with whether it ends behind a line end. `least` is the column that its
further lines must reach. -/
def plainScalar (inFlow : Bool) (least : Nat) (c : Cursor) :
    Except Fault (Text × Bool × Cursor) :=
  c.plainWords inFlow least c.fuel {}

/-! ## Quoted scalars -/

/-- The character of an escape of one letter. -/
def simpleEscape? (c : Char) : Option Char :=
  match c with
  | '0' => some (Char.ofNat 0x00)
  | 'a' => some (Char.ofNat 0x07)
  | 'b' => some (Char.ofNat 0x08)
  | 't' | '\t' => some '\t'
  | 'n' => some '\n'
  | 'v' => some (Char.ofNat 0x0B)
  | 'f' => some (Char.ofNat 0x0C)
  | 'r' => some '\r'
  | 'e' => some (Char.ofNat 0x1B)
  | ' ' => some ' '
  | '"' => some '"'
  | '/' => some '/'
  | '\\' => some '\\'
  | 'N' => some (Char.ofNat 0x85)
  | '_' => some (Char.ofNat 0xA0)
  | 'L' => some (Char.ofNat 0x2028)
  | 'P' => some (Char.ofNat 0x2029)
  | _ => none

/-- The number of hexadecimal digits behind an escape's letter. -/
def escapeDigits? (c : Char) : Option Nat :=
  match c with
  | 'x' => some 2
  | 'u' => some 4
  | 'U' => some 8
  | _ => none

/-- The value of so many hexadecimal digits. -/
def hexValue? (digits : Text) (n : Nat) : Option Nat :=
  if (digits.take n).length < n then none
  else (digits.take n).foldlM (fun v c => (Text.hexValue? c).map (16 * v + ·)) 0

/-- The character of an escape, and the cursor behind it. -/
def escape (c : Cursor) : Except Fault (Char × Cursor) :=
  match c.ahead? 1 with
  | none => c.fail .escapeUnknown
  | some x =>
    match simpleEscape? x, escapeDigits? x with
    | some y, _ => .ok (y, c.skipMany 2)
    | none, some n =>
      let digits := c.skipMany 2
      match hexValue? digits.rest n with
      | none => digits.fail .escapeDigits
      | some code =>
        if (0xD800 ≤ code ∧ code ≤ 0xDFFF) ∨ 0x10FFFF < code then digits.fail .escapeCode
        else .ok (Char.ofNat code, digits.skipMany n)
    | none, none => c.fail .escapeUnknown

/-- The next word of a quoted scalar, with whether an escaped line end follows it. -/
def quotedWord (single : Bool) : Nat → Cursor → Except Fault (Text × Bool × Cursor)
  | 0, c => .ok ([], false, c)
  | fuel + 1, c =>
    match c.head? with
    | none => .ok ([], false, c)
    | some x =>
      let more (y : Text) (c : Cursor) : Except Fault (Text × Bool × Cursor) :=
        (quotedWord single fuel c).map fun (t, broken, c) => (y ++ t, broken, c)
      if isGap x || isBreak x then .ok ([], false, c)
      else if single && x == '\'' then
        if c.ahead? 1 = some '\'' then more ['\''] (c.skipMany 2) else .ok ([], false, c)
      else if !single && x == '"' then .ok ([], false, c)
      else if !single && x == '\\' then
        if (c.ahead? 1).any isBreak then .ok ([], true, c.skip.skipLine)
        else
          match c.escape with
          | .error e => .error e
          | .ok (y, c) => more [y] c
      else more [x] c.skip

/-- The words of a quoted scalar up to its closing quote. -/
def quotedWords (single : Bool) : Nat → Cursor → Except Fault (Text × Cursor)
  | 0, c => c.fail .quotedUnfinished
  | fuel + 1, c => do
    if c.atDocumentIndicator then c.fail .quotedIndicator
    else if c.rest = [] then c.fail .quotedUnfinished
    else
      let (word, broken, c) ← c.quotedWord single c.fuel
      if c.startsWith (if single then '\'' else '"') then return (word, c.skip)
      else
        let (gap, c) ← c.fold none c.fuel { broken := broken }
        let (more, c) ← quotedWords single fuel c
        return (word ++ gap.text ++ more, c)

/-- **A quoted scalar.** -/
def quotedScalar (single : Bool) (c : Cursor) : Except Fault (Text × Cursor) :=
  c.skip.quotedWords single c.fuel

/-! ## Block scalars -/

/-- What becomes of the line ends behind a block scalar. -/
inductive Chomping where
  | strip
  | clip
  | keep
deriving DecidableEq

/-- The sign for the line ends behind a block scalar. -/
def chomping? (c : Cursor) : Option (Chomping × Cursor) :=
  if c.startsWith '+' then some (.keep, c.skip)
  else if c.startsWith '-' then some (.strip, c.skip)
  else none

/-- The digit for the indentation of a block scalar. -/
def indentDigit? (c : Cursor) : Except Fault (Option Nat × Cursor) :=
  match c.head? with
  | some x =>
    if x = '0' then c.fail .blockIndentZero
    else if x.isDigit then .ok (some (x.toNat - '0'.toNat), c.skip)
    else .ok (none, c)
  | none => .ok (none, c)

/-- The header of a block scalar: a sign and a digit in either order. -/
def blockHeader (c : Cursor) : Except Fault (Chomping × Option Nat × Cursor) := do
  match c.chomping? with
  | some (chomping, c) =>
    let (digit, c) ← c.indentDigit?
    return (chomping, digit, c)
  | none =>
    let (digit, c) ← c.indentDigit?
    match digit, c.chomping? with
    | some _, some (chomping, c) => return (chomping, digit, c)
    | _, _ => return (.clip, digit, c)

/-- The line ends in front of the next line of a block scalar, with the greatest column met. The
spaces of the indentation are skipped; while that is not known, all spaces are. -/
def blockBreaks (indent : Option Nat) : Nat → Nat → Cursor → Except Fault (Text × Nat × Cursor)
  | 0, widest, c => .ok ([], widest, c)
  | fuel + 1, widest, c =>
    let spaces := (c.rest.takeWhile (· == ' ')).length
    let c := c.skipMany (match indent with
      | some n => min spaces (n - c.mark.column)
      | none => spaces)
    let widest := max widest c.mark.column
    if c.startsWith '\t' && indent.all fun n => c.mark.column < n then c.fail .blockTab
    else if c.nextIs isBreak then
      (blockBreaks indent fuel widest c.skipLine).map fun (t, widest, next) =>
        (c.lineText ++ t, widest, next)
    else .ok ([], widest, c)

/-- The lines of a block scalar: `first` is the line end behind the line before, and `further` are
the line ends behind that. -/
def blockLines (literal : Bool) (chomping : Chomping) (indent : Nat) :
    Nat → Bool → Text → Text → Cursor → Except Fault (Text × Cursor)
  | 0, _, _, _, c => .ok ([], c)
  | fuel + 1, wasBlank, first, further, c => do
    if c.mark.column = indent ∧ c.rest ≠ [] then
      let isBlank := c.nextIs isGap
      let joint :=
        if !literal && first.head? == some '\n' && !wasBlank && !isBlank then
          if further = [] then [' '] else further
        else first ++ further
      let (line, behind) := c.takeWhile fun x => !isBreak x
      let (breaks, _, next) ← behind.skipLine.blockBreaks (some indent) behind.fuel 0
      let (more, next) ← blockLines literal chomping indent fuel isBlank behind.lineText breaks next
      return (joint ++ line ++ more, next)
    else
      match chomping with
      | .strip => return ([], c)
      | .clip => return (first, c)
      | .keep => return (first ++ further, c)

/-- A block scalar. `parent` is the column of the block around it, if there is one. -/
def blockScalar (literal : Bool) (parent : Option Nat) (c : Cursor) :
    Except Fault (Text × Cursor) := do
  let (chomping, digit, c) ← c.skip.blockHeader
  let c := c.dropWhile isGap
  let c := if c.startsWith '#' then c.dropLine else c
  if !isBreakOrEnd c.head? then c.fail .blockHeaderEnd
  else
    let c := c.skipLine
    let given := digit.map (parent.getD 0 + ·)
    let (breaks, widest, c) ← c.blockBreaks given c.fuel 0
    let least := (parent.map (· + 1)).getD 0
    let indent := given.getD (max (max widest least) 1)
    c.blockLines literal chomping indent c.fuel false [] breaks

end Cursor

end ItemConditions.Yaml
