import ItemConditions.Commit
import ItemConditions.Spread

/-!
# Editing sessions

A session holds the records of one path of one item while they are edited. The document itself
changes only by a commit or a spread.

## Main definitions

* `Session`: the records, those that were loaded, and the selection
* `Session.start`, `Session.select`, `Session.add`, `Session.delete`, `Session.update`,
  `Session.edit`: the steps of a session
* `Session.commit`, `Session.spread`: the steps that change the document
-/

namespace ItemConditions

/-- **An editing session** at a path of an item. -/
structure Session where
  item : Text
  path : ItemPath
  records : List Record
  /-- The records as they were loaded or last committed. -/
  loaded : List Record
  selected : Option Nat
deriving DecidableEq, Repr

namespace Session

/-- The kind of the session's path. -/
def kind (s : Session) : SlotKind := s.path.kind

/-- **A new session** on the records at a path, with the first one selected. -/
def start (doc : Document) (item : Text) (path : ItemPath) : Except EditError Session :=
  (doc.load item path).map fun rs =>
    { item := item, path := path, records := rs, loaded := rs
      selected := if rs.isEmpty then none else some 0 }

/-- The selected record with its index. -/
def selection? (s : Session) : Option (Nat × Record) := do
  let i ← s.selected
  let r ← s.records[i]?
  return (i, r)

/-- The records are no longer those that were loaded. -/
def isDirty (s : Session) : Bool := !Record.sameList s.records s.loaded

/-- The record at an index. -/
def record (s : Session) (i : Nat) : Except EditError Record :=
  match s.records[i]? with
  | some r => .ok r
  | none => .error (.indexOutOfRange i s.records.length)

/-- The record at an index is selected. -/
def select (s : Session) (i : Nat) : Except EditError (Record × Session) :=
  (s.record i).map fun r => (r, { s with selected := some i })

/-- The record that is added: a balance of zero, as a command where commands stand. -/
def fresh (kind : SlotKind) : Record := { condition := .money .zero, isAction := kind = .commands }

/-- A fresh record is added at the end and selected. -/
def add (s : Session) : Nat × Session :=
  (s.records.length,
    { s with records := s.records ++ [fresh s.kind], selected := some s.records.length })

/-- The record at an index is taken out; nothing is selected any more. -/
def delete (s : Session) (i : Nat) : Except EditError (Record × Session) :=
  (s.record i).map fun r => (r, { s with records := s.records.eraseIdx i, selected := none })

/-- The record at an index is changed. -/
def edit (s : Session) (i : Nat) (f : Record → Record) : Except EditError Session :=
  (s.record i).map fun r => { s with records := s.records.set i (f r) }

/-- The record at an index is replaced. -/
def update (s : Session) (i : Nat) (new : Record) : Except EditError Session :=
  s.edit i fun _ => new

/-- A structured record with the text that is now written for it; kept text stays. -/
def refreshed (kind : SlotKind) (r : Record) : Record :=
  if r.isStructured then { r with rawText := Slot.encodeRecord kind r } else r

/-- **The records are committed to the document**, unless they are those that were loaded. -/
def commit (s : Session) (doc : Document) :
    Remarked (Except EditError (CommitOutcome × Session × Document)) :=
  if !s.isDirty then ⟨.ok (.unchanged, s, doc), []⟩
  else
    let committed := doc.commit s.item s.path s.records
    match committed.answer with
    | .error e => ⟨.error e, committed.warnings⟩
    | .ok (outcome, doc) =>
      let records := s.records.map (refreshed s.kind)
      ⟨.ok (outcome, { s with records := records, loaded := records }, doc),
        committed.warnings ++ Slot.warnings s.kind (s.records.filter Record.isStructured)⟩

/-- The records are spread over the item's other paths of the same kind. -/
def spread (s : Session) (doc : Document) :
    Remarked (Except SpreadError (SpreadReport × Document)) :=
  doc.spread s.item s.path s.records

end Session

end ItemConditions
