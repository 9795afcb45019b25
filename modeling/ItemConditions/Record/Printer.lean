import ItemConditions.Record
import ItemConditions.Value

/-!
# Records as document values

A record is written as a mapping of its kind, the fields of the kind, and the fields that all
records have. The comparator is left out where it is `>=`.

## Main definitions

* `Record.toValue`: the mapping of a record
-/

namespace ItemConditions

/-- The value of an amount; one that is not finite is written as null. -/
def Binary64.toValue (x : Binary64) : Value := if x.isFinite then .number (.real x) else .null

namespace ItemMatch

/-- The fields of an item match. -/
def fields (m : ItemMatch) : List (Text × Value) :=
  [("name".toList, .string m.name), ("key".toList, .string m.key),
    ("amount".toList, m.amount.toValue), ("use_name".toList, .bool m.useName)]

end ItemMatch

/-- The fields that belong to the kind of a condition. -/
def Condition.fields : Condition → List (Text × Value)
  | .money a | .level a => [("amount".toList, a.toValue)]
  | .playerMeta k a | .unknown k a => [("key".toList, .string k), ("amount".toList, a.toValue)]
  | .mythicMobs m | .neigeItems m => m.fields
  | .raw t => [("text".toList, .string t)]

/-- The field of a comparator, left out where it is the usual one. -/
def Comparator.fields : Comparator → List (Text × Value)
  | .ge => []
  | c => [("comparator".toList, .string c.sign.toList)]

/-- **The mapping of a record.** -/
def Record.toValue (r : Record) : Value :=
  .mapping (("kind".toList, .string r.kind.name.toList) :: r.condition.fields
    ++ [("raw_text".toList, .string r.rawText), ("is_action".toList, .bool r.isAction)]
    ++ r.comparator.fields)

/-- The sequence of a list of records. -/
def Record.listToValue (rs : List Record) : Value := .sequence (rs.map Record.toValue)

end ItemConditions
