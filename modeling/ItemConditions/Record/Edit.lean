import ItemConditions.Record

/-!
# Edits of a record

One edit changes one field of a record. A form's changes are applied in a fixed order, the kind
first.

## Main definitions

* `Edit`, `Edit.apply`: one edit
* `Changes`, `Changes.apply`: the changes of a form
-/

namespace ItemConditions

/-- **One edit of a record.** -/
inductive Edit where
  | kind (k : Kind)
  | name (n : Text)
  | key (k : Text)
  | amount (a : Binary64)
  | useName (u : Bool)
  | isAction (b : Bool)
deriving DecidableEq, Repr

/-- The record after an edit. -/
def Edit.apply (r : Record) : Edit → Record
  | .kind k => r.setKind k
  | .name n => r.setName n
  | .key k => r.setKey k
  | .amount a => r.setAmount a
  | .useName u => r.setUseName u
  | .isAction b => { r with isAction := b }

/-- **The changes of a form**; a field that is not given stays as it is. -/
structure Changes where
  kind : Option Kind := none
  name : Option Text := none
  key : Option Text := none
  amount : Option Binary64 := none
  useName : Option Bool := none
deriving DecidableEq, Repr

/-- The edits of a form, in their order. -/
def Changes.edits (c : Changes) : List Edit :=
  (c.kind.map Edit.kind).toList ++ (c.name.map Edit.name).toList ++ (c.key.map Edit.key).toList
    ++ (c.amount.map Edit.amount).toList ++ (c.useName.map Edit.useName).toList

/-- The record after the changes of a form. -/
def Changes.apply (c : Changes) (r : Record) : Record := c.edits.foldl Edit.apply r

end ItemConditions
