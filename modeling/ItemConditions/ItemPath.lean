import ItemConditions.Json.Printer
import ItemConditions.Json.Reader
import ItemConditions.Text.Blank

/-!
# Paths inside an item

A path is a list of segments: keys of mappings and indices of sequences.

Its text joins the segments with points; where a segment holds a point itself, the text is a JSON
sequence of strings. Its pointer puts a slash before the item's key and before every segment, with
tilde and slash written as `~0` and `~1` inside them.

## Main definitions

* `ItemPath`: the segments
* `SlotKind`, `ItemPath.kind`: whether a condition script or a list of commands stands at a path
* `ItemPath.text`, `ItemPath.read`: the text of a path, and back
* `ItemPath.pointer`, `ItemPath.tokens?`: the pointer of a path under an item, and back
-/

namespace ItemConditions

/-- **A place inside an item.** -/
structure ItemPath where
  segments : List Text
deriving DecidableEq, Repr

/-- **What stands at a path**: one condition script, or a list of command lines. -/
inductive SlotKind where
  | script
  | commands
deriving DecidableEq, Repr

/-- The label of a kind of slot. -/
def SlotKind.label : SlotKind → String
  | .script => "String"
  | .commands => "Array<String>"

/-- The type of value that a kind of slot holds. -/
def SlotKind.expected : SlotKind → String
  | .script => "string"
  | .commands => "sequence"

namespace ItemPath

/-- The last segment. -/
def last? (p : ItemPath) : Option Text := p.segments.getLast?

/-- The path without its last segment. -/
def parent (p : ItemPath) : ItemPath := ⟨p.segments.dropLast⟩

/-- Commands stand under the keys `actions` and `lore`, and a script everywhere else. -/
def kind (p : ItemPath) : SlotKind :=
  if p.last? = some "actions".toList ∨ p.last? = some "lore".toList then .commands else .script

/-! ## The text of a path -/

/-- A JSON sequence of strings. -/
def bracketed (segments : List Text) : Text := Json.compact (Value.ofTexts segments)

/-- **The text of a path**: segments joined by points, or a JSON sequence of them if a segment holds
a point. -/
def text (p : ItemPath) : Text :=
  if p.segments.any fun s => '.' ∈ s then bracketed p.segments
  else List.intercalate ['.'] p.segments

/-- Why a text is no path. -/
inductive ReadError where
  | empty
  | invalidBrackets
deriving DecidableEq, Repr

/-- What is said of a text that is no path. -/
def ReadError.message : ReadError → String
  | .empty => "empty path"
  | .invalidBrackets => "invalid path array"

/-- The path of a text: a JSON sequence of strings if a bracket comes first, else the pieces
between points. -/
def read (t : Text) : Except ReadError ItemPath :=
  let t := Text.trim t
  if t.head? = some '[' then
    match Json.readTexts? t with
    | some segments => .ok ⟨segments⟩
    | none => .error .invalidBrackets
  else if t = [] then .error .empty
  else .ok ⟨Text.splitOn '.' t⟩

/-! ## The pointer of a path -/

/-- A token of a pointer: tilde and slash are written as `~0` and `~1`. -/
def escapeToken (t : Text) : Text :=
  t.flatMap fun c => if c = '~' then ['~', '0'] else if c = '/' then ['~', '1'] else [c]

/-- The pointer to a place of an item: a slash before the item's key and every segment. -/
def pointer (item : Text) (p : ItemPath) : Text :=
  (item :: p.segments).flatMap fun t => '/' :: escapeToken t

/-- A token without its escapes: first `~1` becomes a slash, then `~0` a tilde. -/
def unescapeToken : Text → Text
  | '~' :: '1' :: r => '/' :: unescapeToken r
  | '~' :: '0' :: r => '~' :: unescapeToken r
  | c :: r => c :: unescapeToken r
  | [] => []

/-- The tokens of a pointer, without their escapes. -/
def tokens? : Text → Option (List Text)
  | [] => some []
  | '/' :: r => some ((Text.splitOn '/' r).map unescapeToken)
  | _ => none

end ItemPath

end ItemConditions
