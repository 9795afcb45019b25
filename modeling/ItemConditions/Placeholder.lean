import ItemConditions.Binary64.Numeral
import ItemConditions.Record
import ItemConditions.Text.Digit

/-!
# Placeholders

A placeholder such as `%player_level%` names the quantity of a player that a condition speaks of.
Reading one is trying rules in order on the text between the percent signs; a text that no rule
knows is an unknown quantity, kept as it was written.

An item check has one of two forms, by name and tag or by tag alone:

* `checkitem_amount_nameequals:<name>,nbtstrings:<tag>`
* `checkitem_amount_nbtstrings:<tag>`

The removal of items has the same form with `checkitem_amount_remove_` in front, and a number of
items behind.

## Main definitions

* `Placeholder.rules`: the named rules
* `Placeholder.classify`: the condition that a placeholder stands for
* `Placeholder.classifyRemoval`: the condition that a removal stands for
* `Placeholder.expression?`: the placeholder of a condition
-/

namespace ItemConditions

namespace Placeholder

/-- The player's balance. -/
def balanceName : Text := "cmi_user_balance".toList

/-- The player's level. -/
def levelName : Text := "player_level".toList

/-- What stands before the key of a meta counter. -/
def metaStart : Text := "cmi_user_meta_".toList

/-- What stands before an item check. -/
def checkStart : Text := "checkitem_amount_".toList

/-- What stands before a removal of items. -/
def removalStart : Text := "checkitem_amount_remove_".toList

/-- What stands before an item's display name. -/
def nameMark : Text := "nameequals:".toList

/-- What stands before an item's tag. -/
def tagMark : Text := "nbtstrings:".toList

/-- What stands between an item's display name and its tag. -/
def tagSeparator : Text := ",nbtstrings:".toList

/-- What stands before the number of items that are removed. -/
def countMark : Text := ",amt:".toList

/-- What a tag of the NeigeItems system starts with. -/
def neigeMark : Text := "NeigeItems..id=".toList

/-- What a tag of the MythicMobs system starts with. -/
def mythicMark : Text := "PublicBukkitValues..mythicmobs:type=".toList

/-! ## Reading -/

/-- The balance. -/
def balance? (t : Text) : Option Condition :=
  if t = balanceName then some (.money .zero) else none

/-- The level. -/
def level? (t : Text) : Option Condition :=
  if t = levelName then some (.level .zero) else none

/-- A meta counter, which has a key. -/
def meta? (t : Text) : Option Condition :=
  match metaStart.isPrefixOf? t with
  | some (c :: key) => some (.playerMeta (c :: key) .zero)
  | _ => none

/-- The item of a tag, with a name and a way of matching. -/
def tagged? (name : Text) (useName : Bool) (tag : Text) : Option Condition :=
  match neigeMark.isPrefixOf? tag with
  | some key => some (.neigeItems ⟨name, key, .zero, useName⟩)
  | none =>
    match mythicMark.isPrefixOf? tag with
    | some key => some (.mythicMobs ⟨name, key, .zero, useName⟩)
    | none => none

/-- What follows the start of an item check: a name with a tag, or a tag alone. -/
def itemClause? (t : Text) : Option Condition :=
  match nameMark.isPrefixOf? t with
  | some named =>
    match Text.cut? tagSeparator named with
    | some (name, tag) => tagged? name true tag
    | none => none
  | none =>
    match tagMark.isPrefixOf? t with
    | some tag => tagged? [] false tag
    | none => none

/-- An item check. -/
def itemCheck? (t : Text) : Option Condition := (checkStart.isPrefixOf? t).bind itemClause?

/-- **The rules for the text between the percent signs**, in the order in which they are tried. -/
def rules : List (String × (Text → Option Condition)) :=
  [("balance", balance?), ("level", level?), ("meta", meta?), ("item-check", itemCheck?)]

/-- The text without one percent sign at each end. -/
def stripPercent (t : Text) : Text :=
  let t := (['%'].isPrefixOf? t).getD t
  (['%'].isSuffixOf? t).getD t

/-- **The condition that a placeholder stands for**, with the amount zero. -/
def classify (expression : Text) : Condition :=
  (rules.findSome? fun rule => rule.2 (stripPercent expression)).getD (.unknown expression .zero)

/-- A removal without the number of items behind it, and that number. Digits that are not all ASCII
count as zero. -/
def splitCount (t : Text) : Text × Binary64 :=
  let digits := (t.reverse.takeWhile Text.isDecimalDigit).reverse
  if digits = [] then (t, .zero)
  else
    match countMark.isSuffixOf? (t.take (t.length - digits.length)) with
    | some body => (body, (Numeral.readPlain? digits).getD .zero)
    | none => (t, .zero)

/-- **The condition that a removal stands for**, with the number of items as its amount. -/
def classifyRemoval (inner : Text) : Condition :=
  let (body, count) := splitCount inner
  (classify (Text.replaceFirst removalStart checkStart body)).setAmount count

/-! ## Writing -/

/-- A name with a tag, or a tag alone. -/
def itemClause (mark : Text) (m : ItemMatch) : Text :=
  if m.useName then nameMark ++ m.name ++ tagSeparator ++ mark ++ m.key
  else tagMark ++ mark ++ m.key

/-- The placeholder of a condition; kept text has none. -/
def expression? : Condition → Option Text
  | .money _ => some ('%' :: balanceName ++ ['%'])
  | .level _ => some ('%' :: levelName ++ ['%'])
  | .playerMeta key _ => some ('%' :: metaStart ++ key ++ ['%'])
  | .mythicMobs m => some ('%' :: checkStart ++ itemClause mythicMark m ++ ['%'])
  | .neigeItems m => some ('%' :: checkStart ++ itemClause neigeMark m ++ ['%'])
  | .unknown key _ => some key
  | .raw _ => none

end Placeholder

end ItemConditions
