import ItemConditions.Slot

/-!
# Loading and committing records

The records of a slot of a document, and their way back into it.

## Main definitions

* `EditError`: why an edit of a document fails
* `Document.load`: the records at a path
* `Document.commit`: the document with records written at a path
-/

namespace ItemConditions

/-- Why an edit of a document fails. -/
inductive EditError where
  | unknownItem (item : Text)
  /-- The value at the path holds no records. -/
  | unsupported (path : ItemPath) (found expected : String)
  | indexOutOfRange (index length : Nat)
  | slot (error : SlotError)
deriving DecidableEq, Repr

/-- The wording of the error. -/
def EditError.message : EditError → String
  | .unknownItem item => "unknown item '" ++ String.ofList item ++ "'"
  | .unsupported path found expected =>
    "value at " ++ String.ofList path.text ++ " is a " ++ found ++ ", expected " ++ expected
  | .indexOutOfRange index length =>
    "condition index " ++ toString index ++ " out of range (len=" ++ toString length ++ ")"
  | .slot error => error.message

/-- What a commit did to the document. -/
inductive CommitOutcome where
  /-- The records were written at the path. -/
  | written
  /-- There was no clause to write, and the field was removed. -/
  | removed
  /-- The records are those that were loaded, and the document was left alone. -/
  | unchanged
deriving DecidableEq, Repr

namespace Document

/-- **The records at a path** of an item. -/
def load (doc : Document) (item : Text) (path : ItemPath) : Except EditError (List Record) :=
  if (doc.item? item).isNone then .error (.unknownItem item)
  else
    let found := doc.get? item path
    match Slot.read? path.kind found with
    | some rs => .ok rs
    | none =>
      .error (.unsupported path ((found.map Value.typeName).getD "missing value")
        path.kind.expected)

/-- **The document with records written at a path.** An empty list of clauses removes the field. -/
def commit (doc : Document) (item : Text) (path : ItemPath) (rs : List Record) :
    Remarked (Except EditError (CommitOutcome × Document)) :=
  if (doc.item? item).isNone then ⟨.error (.unknownItem item), []⟩
  else
    let remarks := Slot.warnings path.kind rs
    match (Slot.encode path.kind rs).toValue? with
    | some new =>
      match doc.set item path new with
      | .ok doc => ⟨.ok (.written, doc), remarks⟩
      | .error e => ⟨.error (.slot e), remarks ++ setWarnings e⟩
    | none =>
      match doc.remove item path with
      | .ok (_, doc) => ⟨.ok (.removed, doc), remarks⟩
      | .error e => ⟨.error (.slot e), remarks⟩

end Document

end ItemConditions
