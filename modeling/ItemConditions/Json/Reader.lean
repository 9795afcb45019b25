import ItemConditions.Json.Number

/-!
# Reading JSON

Each reader takes a text and gives what it read with the rest of the text. Recursion is bounded by
the length of the text; containers nest to a fixed depth.

## Main definitions

* `Json.Fault`: why a text is not JSON
* `Json.stringBody`, `Json.number`, `Json.value`: readers of the parts
* `Json.read`: the value of a whole text
-/

namespace ItemConditions.Json

/-- Why a text is not JSON. -/
inductive Fault where
  /-- The text ends before the value does. -/
  | unfinished
  /-- A character that cannot stand where it stands. -/
  | unexpected
  /-- A number too large for 64 bits. -/
  | outOfRange
  /-- Containers nest too deeply. -/
  | tooDeep
deriving DecidableEq, Repr

/-- A reader's answer: what was read, and the rest of the text. -/
abbrev Answer (α : Type) := Except Fault (α × Text)

/-- Containers nest to this depth. -/
def depthLimit : Nat := 127

/-- The blanks between tokens. -/
def isSpace (c : Char) : Bool := c == ' ' || c == '\n' || c == '\t' || c == '\r'

/-- The text from its first character that is no blank. -/
def skipSpace (t : Text) : Text := t.dropWhile isSpace

/-- Four hexadecimal digits. -/
def unit? : Text → Option (Nat × Text)
  | a :: b :: c :: d :: r => do
    let a ← Text.hexValue? a
    let b ← Text.hexValue? b
    let c ← Text.hexValue? c
    let d ← Text.hexValue? d
    return (((a * 16 + b) * 16 + c) * 16 + d, r)
  | _ => none

/-- The second half of a character written in two halves, behind the first half `high`. -/
def lowHalf (high : Nat) : Text → Answer Char
  | '\\' :: 'u' :: r =>
    match unit? r with
    | some (low, r) =>
      if 0xDC00 ≤ low ∧ low < 0xE000 then
        .ok (Char.ofNat (0x10000 + (high - 0xD800) * 0x400 + (low - 0xDC00)), r)
      else .error .unexpected
    | none => .error .unexpected
  | _ => .error .unexpected

/-- The character that an escape denotes, behind its backslash. -/
def escaped : Text → Answer Char
  | '"' :: r => .ok ('"', r)
  | '\\' :: r => .ok ('\\', r)
  | '/' :: r => .ok ('/', r)
  | 'b' :: r => .ok ('\x08', r)
  | 'f' :: r => .ok ('\x0C', r)
  | 'n' :: r => .ok ('\n', r)
  | 'r' :: r => .ok ('\r', r)
  | 't' :: r => .ok ('\t', r)
  | 'u' :: r =>
    match unit? r with
    | none => .error .unexpected
    | some (code, r) =>
      if 0xD800 ≤ code ∧ code < 0xDC00 then lowHalf code r
      else if 0xDC00 ≤ code ∧ code < 0xE000 then .error .unexpected
      else .ok (Char.ofNat code, r)
  | [] => .error .unfinished
  | _ => .error .unexpected

/-- **The text up to the closing quote**, with its escapes resolved. -/
def stringBody : Nat → Text → Answer Text
  | 0, _ => .error .unfinished
  | _ + 1, [] => .error .unfinished
  | fuel + 1, c :: r =>
    if c = '"' then .ok ([], r)
    else if c = '\\' then
      match escaped r with
      | .error e => .error e
      | .ok (d, r) => (stringBody fuel r).map fun (t, r) => (d :: t, r)
    else if c.toNat < 0x20 then .error .unexpected
    else (stringBody fuel r).map fun (t, r) => (c :: t, r)

/-- The text behind an opening quote. -/
def string (t : Text) : Answer Text := stringBody (t.length + 1) t

/-- The digits behind a point, if there is one. -/
def fraction : Text → Answer (Option Text)
  | '.' :: r =>
    match r.takeWhile Char.isDigit with
    | [] => .error .unexpected
    | digits => .ok (some digits, r.dropWhile Char.isDigit)
  | r => .ok (none, r)

/-- The exponent, if there is one. -/
def exponent : Text → Answer (Option Int)
  | c :: r =>
    if c = 'e' ∨ c = 'E' then
      let (negative, r) := Numeral.splitSign r
      match r.takeWhile Char.isDigit with
      | [] => .error .unexpected
      | digits =>
        let n : Int := Numeral.digitsValue 0 digits
        .ok (some (if negative then -n else n), r.dropWhile Char.isDigit)
    else .ok (none, c :: r)
  | [] => .ok (none, [])

/-- A number, whose sign has been read. -/
def unsignedNumber (negative : Bool) (t : Text) :
    Except Fault (Number × Text) :=
  let whole := t.takeWhile Char.isDigit
  let rest := t.dropWhile Char.isDigit
  if whole = [] then .error .unexpected
  else if whole.head? = some '0' ∧ whole.length ≠ 1 then .error .unexpected
  else do
    let (places, rest) ← fraction rest
    let (shift, rest) ← exponent rest
    match numberOfDigits? negative whole places shift with
    | some n => return (n, rest)
    | none => .error .outOfRange

/-- A number with its sign. -/
def number : Text → Answer Number
  | '-' :: t => unsignedNumber true t
  | t => unsignedNumber false t

/-- A word with a fixed value. -/
def word (spelling : Text) (v : Value) (t : Text) : Answer Value :=
  match spelling.isPrefixOf? t with
  | some rest => .ok (v, rest)
  | none => .error .unexpected

/-- The text behind a colon. -/
def colon (t : Text) : Except Fault Text :=
  match skipSpace t with
  | ':' :: r => .ok r
  | [] => .error .unfinished
  | _ => .error .unexpected

/-- A key in quotes. -/
def key (t : Text) : Answer Text :=
  match skipSpace t with
  | '"' :: r => string r
  | [] => .error .unfinished
  | _ => .error .unexpected

mutual

/-- **A value**, in at most `depth` further containers. -/
def value (fuel depth : Nat) (t : Text) :
    Except Fault (Value × Text) :=
  match fuel with
  | 0 => .error .unfinished
  | fuel + 1 =>
    match skipSpace t with
    | [] => .error .unfinished
    | c :: r =>
      if c = '"' then (string r).map fun (s, r) => (.string s, r)
      else if c = '[' then
        match depth with
        | 0 => .error .tooDeep
        | depth + 1 =>
          match skipSpace r with
          | ']' :: r => .ok (.sequence [], r)
          | _ => do
            let (x, r) ← value fuel depth r
            let (xs, r) ← items fuel depth r
            return (.sequence (x :: xs), r)
      else if c = '{' then
        match depth with
        | 0 => .error .tooDeep
        | depth + 1 =>
          match skipSpace r with
          | '}' :: r => .ok (.mapping [], r)
          | _ => do
            let (e, r) ← entry fuel depth r
            let (es, r) ← entries fuel depth r
            return (.mapping (Entries.ofList (e :: es)), r)
      else if c = 't' then word "true".toList (.bool true) (c :: r)
      else if c = 'f' then word "false".toList (.bool false) (c :: r)
      else if c = 'n' then word "null".toList .null (c :: r)
      else (number (c :: r)).map fun (n, r) => (.number n, r)

/-- The items after the first, up to the closing bracket. -/
def items (fuel depth : Nat) (t : Text) :
    Except Fault (List Value × Text) :=
  match fuel with
  | 0 => .error .unfinished
  | fuel + 1 =>
    match skipSpace t with
    | ']' :: r => .ok ([], r)
    | ',' :: r => do
      let (x, r) ← value fuel depth r
      let (xs, r) ← items fuel depth r
      return (x :: xs, r)
    | [] => .error .unfinished
    | _ => .error .unexpected

/-- A key with its value. -/
def entry (fuel depth : Nat) (t : Text) :
    Except Fault ((Text × Value) × Text) :=
  match fuel with
  | 0 => .error .unfinished
  | fuel + 1 => do
    let (k, r) ← key t
    let r ← colon r
    let (v, r) ← value fuel depth r
    return ((k, v), r)

/-- The entries after the first, up to the closing brace. -/
def entries (fuel depth : Nat) (t : Text) :
    Except Fault (List (Text × Value) × Text) :=
  match fuel with
  | 0 => .error .unfinished
  | fuel + 1 =>
    match skipSpace t with
    | '}' :: r => .ok ([], r)
    | ',' :: r => do
      let (e, r) ← entry fuel depth r
      let (es, r) ← entries fuel depth r
      return (e :: es, r)
    | [] => .error .unfinished
    | _ => .error .unexpected

end

/-- A value that starts a text, in at most `depth` containers. -/
def valueWithin (depth : Nat) (t : Text) : Answer Value := value (2 * t.length + 2) depth t

/-- Only blanks are left. -/
def finished (t : Text) : Except Fault Unit :=
  if skipSpace t = [] then .ok () else .error .unexpected

/-- **The value of a whole text.** -/
def read (t : Text) : Except Fault Value := do
  let (v, rest) ← valueWithin depthLimit t
  finished rest
  return v

/-- A whole text that holds a sequence of strings. -/
def readTexts? (t : Text) : Option (List Text) :=
  match read t with
  | .ok (.sequence xs) => xs.mapM fun
    | .string s => some s
    | _ => none
  | _ => none

end ItemConditions.Json
