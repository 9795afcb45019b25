import ItemConditions.Discovery
import ItemConditions.Slot

/-!
# Spreading records over an item

The structured records of one path are copied to the other paths of the same kind in the item. Kept
text never travels: a script is overwritten as a whole, while a list of commands keeps its own kept
lines, in front of the new ones.

## Main definitions

* `SpreadReport`: the paths that were written and those that were not
* `Spread.merged?`: the value that a target gets
* `Document.spread`: the document after a spread
-/

namespace ItemConditions

/-- Why nothing can be spread. -/
inductive SpreadError where
  | nothingToSpread
  | unknownItem (item : Text)
deriving DecidableEq, Repr

/-- The wording of the error. -/
def SpreadError.message : SpreadError → String
  | .nothingToSpread => "no structured conditions to sync"
  | .unknownItem item => "unknown item '" ++ String.ofList item ++ "'"

/-- **The outcome of a spread**: the paths that were written, and those that could not be. -/
structure SpreadReport where
  updated : List ItemPath := []
  skipped : List ItemPath := []
deriving DecidableEq, Repr

namespace Spread

/-- The targets of a spread: the item's other paths of the source's kind. -/
def targets (item : Value) (source : ItemPath) : List ItemPath :=
  (Discovery.paths item).filter fun p => p ≠ source ∧ p.kind = source.kind

/-- **The records that a target gets**: a script only the new ones, commands its own kept lines
before them; `none` where no commands can stand. -/
def merged? (kind : SlotKind) (present : Option Value) (rs : List Record) : Option (List Record) :=
  match kind with
  | .script => some rs
  | .commands =>
    (Slot.read? .commands present).map fun own => own.filter (fun r => !r.isStructured) ++ rs

/-- A spread on its way: the document so far, the report and the remarks. -/
structure Progress where
  document : Document
  report : SpreadReport := {}
  warnings : List Warning := []

/-- The target is left as it is. -/
def Progress.skip (s : Progress) (target : ItemPath) (remarks : List Warning) : Progress :=
  { s with
    report := { s.report with skipped := s.report.skipped ++ [target] }
    warnings := s.warnings ++ remarks }

/-- One target of a spread. -/
def step (item : Text) (kind : SlotKind) (rs : List Record) (s : Progress) (target : ItemPath) :
    Progress :=
  match merged? kind (s.document.get? item target) rs with
  | none => s.skip target [.targetSkipped target]
  | some merged =>
    let remarks := Slot.warnings kind merged
    match (Slot.encode kind merged).toValue? with
    | none => s.skip target remarks
    | some new =>
      match s.document.set item target new with
      | .error e => s.skip target (remarks ++ Document.setWarnings e)
      | .ok document =>
        { document := document
          report := { s.report with updated := s.report.updated ++ [target] }
          warnings := s.warnings ++ remarks }

end Spread

/-- **The document after a spread** of records from a path to the item's other paths of its
kind. -/
def Document.spread (doc : Document) (item : Text) (source : ItemPath) (rs : List Record) :
    Remarked (Except SpreadError (SpreadReport × Document)) :=
  let structured := rs.filter Record.isStructured
  if structured = [] then ⟨.error .nothingToSpread, []⟩
  else
    match doc.item? item with
    | none => ⟨.error (.unknownItem item), []⟩
    | some tree =>
      let done := (Spread.targets tree source).foldl
        (Spread.step item source.kind structured) { document := doc }
      ⟨.ok (done.report, done.document), done.warnings⟩

end ItemConditions
