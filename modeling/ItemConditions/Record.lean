import ItemConditions.Condition

/-!
# Records

The editable unit of a condition script or an action list: a condition, the text it was read from,
whether it came from a command, and the comparator of its clause.

## Main definitions

* `Record`: the unit
* `Record.kept`, `Record.command`: records of kept text and of a command
* `Record.setKind`, `Record.setName`, `Record.setKey`, `Record.setAmount`, `Record.setUseName`: the
  field edits

## Main results

* `Record.comparator_setKind`, `Record.isAction_setKind`: a change of kind touches neither
-/

namespace ItemConditions

/-- **The editable unit** of a condition script or an action list. -/
structure Record where
  condition : Condition
  /-- The text the record was read from, or was last written to. -/
  rawText : Text := []
  isAction : Bool := false
  comparator : Comparator := .ge
deriving DecidableEq, Repr

namespace Record

/-- Text that no rule recognised, kept as it stands. -/
def kept (t : Text) : Record := { condition := .raw t, rawText := t }

/-- The record of a command. -/
def command (c : Condition) : Record := { condition := c, isAction := true }

/-- The kind of the condition. -/
def kind (r : Record) : Kind := r.condition.kind

/-- Some rule recognised the record. -/
def isStructured (r : Record) : Bool := r.condition.isStructured

/-- The amount of the condition. -/
def amount (r : Record) : Binary64 := r.condition.amount

/-- The key of the condition. -/
def key (r : Record) : Text := r.condition.key

/-- The name of a record: an item's own, and a fixed label for the other kinds. -/
def name (r : Record) : Text :=
  match r.condition with
  | .money _ => if r.isAction then "Money deduction".toList else "Balance".toList
  | .level _ => "Level".toList
  | .playerMeta .. => "Player meta".toList
  | .mythicMobs m | .neigeItems m => m.name
  | .unknown .. => "Unknown variable".toList
  | .raw _ => if r.isAction then "Command".toList else "Raw logic".toList

/-- Whether an item is matched by name; `none` for the other kinds. -/
def useName? (r : Record) : Option Bool := r.condition.item?.map ItemMatch.useName

/-- Equality of records, with amounts compared as numbers: not-a-number equals nothing. -/
def same (r s : Record) : Bool :=
  r.condition.same s.condition && r.rawText == s.rawText && r.isAction == s.isAction
    && r.comparator == s.comparator

/-- Equality of lists of records, one by one. -/
def sameList : List Record → List Record → Bool
  | [], [] => true
  | r :: rs, s :: ss => r.same s && sameList rs ss
  | _, _ => false

/-- The record with another condition; kept text becomes the text of the record too. -/
def withCondition (r : Record) (c : Condition) : Record :=
  match c with
  | .raw t => { r with condition := c, rawText := t }
  | _ => { r with condition := c }

/-- **A change of kind** carries name, key, amount and the way of matching across; the own kind
changes nothing. -/
def setKind (k : Kind) (r : Record) : Record :=
  if k = r.kind then r
  else
    let name := (r.condition.item?.map ItemMatch.name).getD []
    r.withCondition (.ofFields k name r.key r.amount (r.useName?.getD true))

/-- Another name; only items have one. -/
def setName (n : Text) (r : Record) : Record := { r with condition := r.condition.setName n }

/-- Another key; kept text is replaced as a whole. -/
def setKey (k : Text) (r : Record) : Record :=
  match r.condition with
  | .raw _ => { r with condition := .raw k, rawText := k }
  | c => { r with condition := c.setKey k }

/-- Another amount; kept text has none. -/
def setAmount (a : Binary64) (r : Record) : Record :=
  { r with condition := r.condition.setAmount a }

/-- Match by name or not; only items do. -/
def setUseName (u : Bool) (r : Record) : Record :=
  { r with condition := r.condition.setUseName u }

@[simp] theorem comparator_withCondition (r : Record) (c : Condition) :
    (r.withCondition c).comparator = r.comparator := by
  cases c <;> rfl

@[simp] theorem isAction_withCondition (r : Record) (c : Condition) :
    (r.withCondition c).isAction = r.isAction := by
  cases c <;> rfl

@[simp] theorem condition_withCondition (r : Record) (c : Condition) :
    (r.withCondition c).condition = c := by
  cases c <;> rfl

/-- A change of kind keeps the comparator. -/
@[simp] theorem comparator_setKind (k : Kind) (r : Record) :
    (r.setKind k).comparator = r.comparator := by
  unfold setKind
  split <;> simp

/-- A change of kind keeps the mark of a command. -/
@[simp] theorem isAction_setKind (k : Kind) (r : Record) :
    (r.setKind k).isAction = r.isAction := by
  unfold setKind
  split <;> simp

end Record

end ItemConditions
