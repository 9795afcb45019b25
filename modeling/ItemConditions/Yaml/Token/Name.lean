import ItemConditions.Yaml.Token

/-!
# Names, tags and directives in a text

## Main definitions

* `Yaml.Cursor.name`: the name of an anchor or an alias
* `Yaml.Cursor.tag`: a tag, as a handle and what follows it
* `Yaml.Cursor.directive`: a line that starts with a percent sign
-/

namespace ItemConditions.Yaml.Cursor

/-! ## Anchors and aliases -/

/-- What may follow the name of an anchor or an alias. -/
def endsName : Option Char → Bool
  | none => true
  | some c => isGap c || isBreak c || "?:,]\x7d%@`".toList.contains c

/-- **The name of an anchor or an alias**, behind its sign. -/
def name (c : Cursor) : Except Fault (Text × Cursor) :=
  let (word, behind) := c.skip.takeWhile isWord
  if word = [] ∨ !endsName behind.head? then behind.fail .anchorName else .ok (word, behind)

/-! ## Tags -/

/-- A character of a tag; brackets and commas only stand in a tag that is written in full. -/
def isTagChar (full : Bool) (c : Char) : Bool :=
  isWord c || ";/?:@&=+$.!~*'()%".toList.contains c || (full && ",[]".toList.contains c)

/-- The octet that a percent sign with two hexadecimal digits spells. -/
def octet? (c : Cursor) : Option UInt8 :=
  match c.rest with
  | '%' :: a :: b :: _ => do
    return UInt8.ofNat ((← Text.hexValue? a) * 16 + (← Text.hexValue? b))
  | _ => none

/-- The number of octets that a character takes, by its first one. -/
def octetWidth? (n : Nat) : Option Nat :=
  if n < 0x80 then some 1
  else if n / 0x20 = 0x6 then some 2
  else if n / 0x10 = 0xE then some 3
  else if n / 0x08 = 0x1E then some 4
  else none

/-- The further octets of a character. -/
def furtherOctets : Nat → Cursor → Except Fault (Tag × Cursor)
  | 0, c => .ok ([], c)
  | n + 1, c =>
    match c.octet? with
    | none => c.fail .uriOctet
    | some octet =>
      if octet.toNat / 0x40 = 0x2 then
        (furtherOctets n (c.skipMany 3)).map fun (octets, c) => (octet :: octets, c)
      else c.fail .uriTrailingOctet

/-- The octets of a character written as percent signs with hexadecimal digits. Only their number is
looked at, not what they spell. -/
def escapedChar (c : Cursor) : Except Fault (Tag × Cursor) :=
  match c.octet? with
  | none => c.fail .uriOctet
  | some octet =>
    match octetWidth? octet.toNat with
    | none => c.fail .uriLeadingOctet
    | some width =>
      (furtherOctets (width - 1) (c.skipMany 3)).map fun (octets, c) => (octet :: octets, c)

/-- The octets of a tag. -/
def tagOctets (full : Bool) : Nat → Cursor → Except Fault (Tag × Cursor)
  | 0, c => .ok ([], c)
  | fuel + 1, c =>
    match c.head? with
    | none => .ok ([], c)
    | some x =>
      if x = '%' then do
        let (octets, c) ← c.escapedChar
        let (more, c) ← tagOctets full fuel c
        return (octets ++ more, c)
      else if isTagChar full x then
        (tagOctets full fuel c.skip).map fun (more, c) => (Utf8.encode [x] ++ more, c)
      else .ok ([], c)

/-- A piece of a tag ends before the first octet that is zero. -/
def untilZero (tag : Tag) : Tag := tag.takeWhile fun octet => octet.toNat ≠ 0

/-- The octets of a tag behind a given start, of which the exclamation mark is dropped. Nothing at
all is no tag. -/
def tagEnding (full : Bool) (start : Text) (c : Cursor) : Except Fault (Tag × Cursor) := do
  let (octets, c) ← c.tagOctets full c.fuel
  if start = [] ∧ octets = [] then c.fail .tagMissing
  else return (untilZero (Utf8.encode (start.drop 1) ++ octets), c)

/-- A handle: an exclamation mark, a word, and a second mark if there is one. -/
def handle (inDirective : Bool) (c : Cursor) : Except Fault (Text × Cursor) :=
  if !c.startsWith '!' then c.fail .tagBang
  else
    let (word, behind) := c.skip.takeWhile isWord
    if behind.startsWith '!' then .ok ('!' :: word ++ ['!'], behind.skip)
    else if inDirective && !word.isEmpty then behind.fail .tagBang
    else .ok ('!' :: word, behind)

/-- A tag written in full, between angle brackets. -/
def fullTag (c : Cursor) : Except Fault (Text × Tag × Cursor) := do
  let (t, c) ← (c.skipMany 2).tagEnding true []
  if c.startsWith '>' then return ([], t, c.skip) else c.fail .tagClosing

/-- A tag of a handle and an ending. What looks like a handle and lacks the second mark belongs to
the ending; the mark alone is a tag of its own. -/
def shortTag (c : Cursor) : Except Fault (Text × Tag × Cursor) := do
  let (start, behind) ← c.handle false
  if start.length ≠ 1 ∧ start.getLast? = some '!' then
    let (t, behind) ← behind.tagEnding false []
    return (start, t, behind)
  else
    let (t, behind) ← behind.tagEnding false start
    return if t = [] then ([], Utf8.encode ['!'], behind) else (['!'], t, behind)

/-- **A tag**, as a handle and what follows it. -/
def tag (inFlow : Bool) (c : Cursor) : Except Fault (Text × Tag × Cursor) := do
  let (start, ending, behind) ← if c.ahead? 1 = some '<' then c.fullTag else c.shortTag
  if isGapOrEnd behind.head? || (inFlow && behind.startsWith ',') then
    return (start, ending, behind)
  else behind.fail .tagEnd

/-! ## Directives -/

/-- A number of a version. -/
def versionNumber (c : Cursor) : Except Fault (Nat × Cursor) :=
  let (digits, behind) := c.takeWhile Char.isDigit
  if digits = [] then c.fail .versionMissing
  else if 9 < digits.length then (c.skipMany 9).fail .versionTooLong
  else .ok ((Text.toNat? digits).getD 0, behind)

/-- The version of a directive. -/
def version (c : Cursor) : Except Fault (TokenKind × Cursor) := do
  let (major, c) ← (c.dropWhile isGap).versionNumber
  if !c.startsWith '.' then c.fail .versionDigit
  else
    let (minor, c) ← c.skip.versionNumber
    return (.version major minor, c)

/-- The handle of a directive and what it stands for. -/
def tagHandle (c : Cursor) : Except Fault (TokenKind × Cursor) := do
  let (start, c) ← (c.dropWhile isGap).handle true
  if !c.nextIs isGap then c.fail .tagDirectiveBlank
  else
    let (t, c) ← (c.dropWhile isGap).tagEnding true []
    if isGapOrEnd c.head? then return (.tagHandle start t, c) else c.fail .tagDirectiveEnd

/-- **A directive**, up to the end of its line. -/
def directive (c : Cursor) : Except Fault (Token × Cursor) := do
  let (word, behind) := c.skip.takeWhile isWord
  if word = [] then behind.fail .directiveNameMissing
  else if !isGapOrEnd behind.head? then behind.fail .directiveNameEnd
  else
    let (kind, stop) ←
      if word = "YAML".toList then behind.version
      else if word = "TAG".toList then behind.tagHandle
      else behind.fail .directiveUnknown
    let rest := stop.dropWhile isGap
    let rest := if rest.startsWith '#' then rest.dropLine else rest
    if !isBreakOrEnd rest.head? then rest.fail .directiveEnd
    else return (⟨kind, c.mark, stop.mark⟩, rest.skipLine)

end ItemConditions.Yaml.Cursor
