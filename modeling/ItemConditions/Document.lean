import ItemConditions.ItemPath
import ItemConditions.Value.Access
import ItemConditions.Warning

/-!
# Documents

A document is a mapping from item keys to the items' trees, in the order of the file. A value inside
an item is read, assigned and withdrawn at a path, which is resolved as a pointer from the top of
the document.

## Main definitions

* `Document`: the items
* `Document.ofValue`: the document that a value holds
* `Document.resolve?`, `Document.update?`: the value that a pointer leads to, and its change
* `Document.get?`, `Document.set`, `Document.remove`: access at a path
* `SlotError`: why there is nothing to assign or withdraw
-/

namespace ItemConditions

/-- **The items of a file**, under their keys. -/
structure Document where
  entries : Entries Value
deriving Repr

/-- Why a value cannot be assigned or withdrawn. -/
inductive SlotError where
  /-- The path leads nowhere. -/
  | notFound (item : Text) (path : ItemPath)
  /-- The path has no segment. -/
  | emptyPath
deriving DecidableEq, Repr

/-- The wording of the error. -/
def SlotError.message : SlotError → String
  | .notFound item path =>
    "path not found in item '" ++ String.ofList item ++ "': " ++ String.ofList path.text
  | .emptyPath => "empty path"

namespace Document

/-- The document without items. -/
def empty : Document := ⟨[]⟩

/-- The document as one value. -/
def toValue (doc : Document) : Value := .mapping doc.entries

/-- **The document that a value holds**: a mapping is one, and null is the empty one. Of any other
value the type is told. -/
def ofValue : Value → Except String Document
  | .mapping es => .ok ⟨es⟩
  | .null => .ok empty
  | v => .error v.typeName

/-- The keys of the items, in order. -/
def keys (doc : Document) : List Text := Entries.keys doc.entries

/-- The tree of an item. -/
def item? (doc : Document) (item : Text) : Option Value := Entries.get? item doc.entries

/-- The value that a pointer leads to. -/
def resolve? (doc : Document) (pointer : Text) : Option Value :=
  (ItemPath.tokens? pointer).bind fun tokens => doc.toValue.at? tokens

/-- **The value at a path of an item.** -/
def get? (doc : Document) (item : Text) (path : ItemPath) : Option Value :=
  doc.resolve? (path.pointer item)

/-- The document with the value that a pointer leads to changed. -/
def update? (doc : Document) (pointer : Text) (f : Value → Option Value) : Option Document :=
  match (ItemPath.tokens? pointer).bind fun tokens => doc.toValue.updateAt? f tokens with
  | some (.mapping es) => some ⟨es⟩
  | _ => none

/-- Assignment at a path. All but the last segment must lead to a container. -/
def set (doc : Document) (item : Text) (path : ItemPath) (new : Value) :
    Except SlotError Document :=
  match path.last? with
  | none => .error .emptyPath
  | some last =>
    match doc.update? (path.parent.pointer item) (Value.assign? last new) with
    | some doc => .ok doc
    | none => .error (.notFound item path)

/-- The warning for an assignment that failed: there is no place to write to. -/
def setWarnings : SlotError → List Warning
  | .notFound item path => [.slotMissing item path]
  | .emptyPath => []

/-- Withdrawal at a path: what stood there, if anything did, and the document without it. -/
def remove (doc : Document) (item : Text) (path : ItemPath) :
    Except SlotError (Option Value × Document) :=
  match path.last? with
  | none => .error .emptyPath
  | some last =>
    match (doc.get? item path.parent).bind (Value.withdraw? last),
      doc.update? (path.parent.pointer item) fun v => (Value.withdraw? last v).map Prod.snd with
    | some (removed, _), some doc => .ok (removed, doc)
    | _, _ => .error (.notFound item path)

/-- Equality of documents, where the order of keys does not count. -/
def same (a b : Document) : Bool := a.toValue.same b.toValue

end Document

end ItemConditions
