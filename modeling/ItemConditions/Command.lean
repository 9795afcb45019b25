import ItemConditions.Placeholder

/-!
# Commands

A line of an action list is a console command. Three forms are understood: the removal of items,
taking money, and adding to a meta counter. Every other line is kept as it stands.

## Main definitions

* `Command.rules`: the named rules for a line
* `Command.read`: the record of a line
* `Command.write`: the line of a record
-/

namespace ItemConditions

namespace Command

/-- What every command starts with. -/
def start : Text := "console:".toList

/-- What the removal of items starts with. -/
def removalStart : Text := "papi parse %player_name% %".toList

/-- What taking money starts with. -/
def moneyStart : Text := "cmi money take %player_name% ".toList

/-- What adding to a meta counter starts with. -/
def metaStart : Text := "cmi usermeta %player_name% increment ".toList

/-! ## Reading -/

/-- What follows the start of a command of one form, with blanks behind the console's mark or
not. -/
def body? (form : Text) (line : Text) : Option Text :=
  (start.isPrefixOf? line).bind fun t => form.isPrefixOf? (Text.trimStart t)

/-- The removal of items: a placeholder up to the last character of the line, with no percent
sign inside. An item that no rule knows makes no removal. -/
def removal? (line : Text) : Option Condition := do
  let t ← body? removalStart line
  let inner := t.takeWhile (· ≠ '%')
  let item ← Placeholder.removalStart.isPrefixOf? inner
  if t.dropWhile (· ≠ '%') = ['%'] ∧ item ≠ [] then
    match Placeholder.classifyRemoval inner with
    | .unknown .. => none
    | c => some c
  else none

/-- Taking money: a numeral without a sign. -/
def money? (line : Text) : Option Condition := do
  let t ← body? moneyStart line
  let d ← Numeral.unsigned? t
  return .money (.ofDecimal false d)

/-- Adding to a meta counter: a key without blanks, one space, and a numeral with a sign or
not. -/
def meta? (line : Text) : Option Condition := do
  let t ← body? metaStart line
  let key := t.takeWhile fun c => !Text.isBlank c
  match t.dropWhile fun c => !Text.isBlank c with
  | ' ' :: number =>
    if key = [] then none else (Numeral.readPlain? number).map (.playerMeta key)
  | _ => none

/-- **The rules for a line without blanks at its ends**, in the order in which they are tried. -/
def rules : List (String × (Text → Option Condition)) :=
  [("item-removal", removal?), ("money-take", money?), ("meta-increment", meta?)]

/-- The condition of a line without blanks at its ends. -/
def recognize? (line : Text) : Option Condition := rules.findSome? fun rule => rule.2 line

/-- **The record of a line**; a line of any other form is kept. -/
def read (line : Text) : Record :=
  match recognize? (Text.trim line) with
  | some c => { condition := c, rawText := line, isAction := true }
  | none => { condition := .raw line, rawText := line, isAction := true }

/-! ## Writing -/

/-- The greatest number of items that a removal can ask for. -/
def countLimit : Nat := 0xFFFFFFFFFFFFFFFF

/-- The removal of items of a system, in whole numbers. -/
def removal (mark : Text) (m : ItemMatch) : Text :=
  start ++ ' ' :: removalStart ++ Placeholder.removalStart ++ Placeholder.itemClause mark m
    ++ Placeholder.countMark ++ Text.ofNat (m.amount.wholePart countLimit) ++ ['%']

/-- A command that stands for a record that no command can express. -/
def placeholder (r : Record) : Text :=
  start ++ " say Unknown Action Rebuild ".toList ++ r.name

/-- **The line of a record.** -/
def write (r : Record) : Text :=
  match r.condition with
  | .raw t => t
  | .money a => start ++ ' ' :: moneyStart ++ a.toPlain
  | .playerMeta key a => start ++ ' ' :: metaStart ++ key ++ ' ' :: a.toPlain
  | .mythicMobs m => removal Placeholder.mythicMark m
  | .neigeItems m => removal Placeholder.neigeMark m
  | .level _ | .unknown .. => placeholder r

end Command

end ItemConditions
