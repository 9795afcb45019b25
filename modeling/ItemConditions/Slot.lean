import ItemConditions.Command
import ItemConditions.Document
import ItemConditions.Script

/-!
# Slots

The value at a path, read as records and written from records, by the kind of the path.

## Main definitions

* `Slot.read?`: the records of a value
* `Encoded`, `Slot.encode`: the written form of a list of records
* `Slot.warnings`: what is worth a word when a list is written
-/

namespace ItemConditions

/-- **The written form of a list of records.** An empty list of clauses has none. -/
inductive Encoded where
  | script (text? : Option Text)
  | commands (lines : List Text)
deriving DecidableEq, Repr

/-- The value to be assigned, if there is one. -/
def Encoded.toValue? : Encoded → Option Value
  | .script text? => text?.map .string
  | .commands lines => some (Value.ofTexts lines)

namespace Slot

/-- The line that an item of a sequence holds: a text's own, and any other value's JSON text. -/
def lineOf : Value → Text
  | .string s => s
  | v => Json.compact v

/-- **The records of a value.** Nothing and null hold none; a script may be a text, a number or a
truth value, and commands stand in a sequence. Other values hold no records. -/
def read? (kind : SlotKind) : Option Value → Option (List Record)
  | none | some .null => some []
  | some v =>
    match kind, v with
    | .script, .string s => some (Script.read s)
    | .script, .bool _ | .script, .number _ => some (Script.read (Json.compact v))
    | .commands, .sequence xs => some (xs.map fun x => Command.read (lineOf x))
    | _, _ => none

/-- **The written form of a list of records** for a kind of slot. -/
def encode (kind : SlotKind) (rs : List Record) : Encoded :=
  match kind with
  | .script => .script (Script.write? rs)
  | .commands => .commands (rs.map Command.write)

/-- The written form of one record. -/
def encodeRecord (kind : SlotKind) (r : Record) : Text :=
  match kind with
  | .script => Clause.write r
  | .commands => Command.write r

/-- The warnings for a list that is written; commands are written without one. -/
def warnings (kind : SlotKind) (rs : List Record) : List Warning :=
  match kind with
  | .script => Script.warnings rs
  | .commands => []

end Slot

end ItemConditions
