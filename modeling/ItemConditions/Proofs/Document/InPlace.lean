import ItemConditions.Commit
import ItemConditions.Spread
import ItemConditions.Proofs.Document.Access
import ItemConditions.Proofs.InPlace

/-!
# Documents changed in place

The operations on a document, carried out on the document that is there: the checks and the writes
in the order in which they are made. A write is the replacement of one container. Each operation
answers as the function of the same name, and where it fails it has not written anything.

## Main definitions

* `Document.setInPlace`, `Document.removeInPlace`: access at a path
* `Document.commitInPlace`, `Document.spreadInPlace`: records written to a document

## Main results

* `Document.performs_set`, `Document.performs_remove`, `Document.performs_commit`,
  `Document.performs_spread`: each of them is carried out as a whole or not at all
-/

namespace ItemConditions.Document

open InPlace (Performs outcome_bind)

/-! ## Access -/

/-- A change at a path replaces what is there, if there is something and it can be changed. -/
theorem update?_eq (doc : Document) (item : Text) (path : ItemPath) (f : Value → Option Value) :
    doc.update? (path.pointer item) f
      = ((doc.get? item path).bind f).map (doc.replaceAt item path) := by
  refine Option.ext fun after => ?_
  rw [update?_eq_some_iff, Option.map_eq_some_iff]
  constructor
  · rintro ⟨part, new, hpart, hnew, rfl⟩
    exact ⟨new, Option.bind_eq_some_iff.mpr ⟨part, hpart, hnew⟩, rfl⟩
  · rintro ⟨new, hnew, rfl⟩
    obtain ⟨part, hpart, hnew⟩ := Option.bind_eq_some_iff.mp hnew
    exact ⟨part, new, hpart, hnew, rfl⟩

/-- **Assignment in place**: the container is looked up, then the step is checked, then the
container is written. -/
def setInPlace (item : Text) (path : ItemPath) (new : Value) :
    InPlace Document SlotError Unit := do
  match path.last? with
  | none => throw .emptyPath
  | some last =>
    match (← get).get? item path.parent with
    | none => throw (.notFound item path)
    | some container =>
      match Value.assign? last new container with
      | none => throw (.notFound item path)
      | some changed => modify fun doc => doc.replaceAt item path.parent changed

/-- **Withdrawal in place**, by the same order. -/
def removeInPlace (item : Text) (path : ItemPath) :
    InPlace Document SlotError (Option Value) := do
  match path.last? with
  | none => throw .emptyPath
  | some last =>
    match (← get).get? item path.parent with
    | none => throw (.notFound item path)
    | some container =>
      match container.withdraw? last with
      | none => throw (.notFound item path)
      | some (removed?, changed) =>
        modify fun doc => doc.replaceAt item path.parent changed
        return removed?

theorem performs_set (item : Text) (path : ItemPath) (new : Value) :
    Performs (setInPlace item path new)
      fun doc => (doc.set item path new).map fun after => ((), after) := by
  intro doc
  simp only [setInPlace, Document.set]
  cases path.last? with
  | none => rfl
  | some last =>
    simp only [update?_eq, outcome_bind, InPlace.outcome_get]
    cases doc.get? item path.parent with
    | none => rfl
    | some container =>
      cases hchanged : Value.assign? last new container with
      | none => simp [hchanged, Except.map]
      | some changed => simp [hchanged, Except.map]

theorem performs_remove (item : Text) (path : ItemPath) :
    Performs (removeInPlace item path) fun doc => doc.remove item path := by
  intro doc
  simp only [removeInPlace, Document.remove]
  cases path.last? with
  | none => rfl
  | some last =>
    simp only [update?_eq, outcome_bind, InPlace.outcome_get]
    cases doc.get? item path.parent with
    | none => rfl
    | some container =>
      cases hchanged : container.withdraw? last with
      | none => simp [hchanged]
      | some changed => simp [hchanged, Except.map]

/-! ## Records -/

/-- **A commit in place**: the item has to be there before anything is written. -/
def commitInPlace (item : Text) (path : ItemPath) (rs : List Record) :
    InPlace Document EditError CommitOutcome := do
  if ((← get).item? item).isNone then throw (.unknownItem item)
  match (Slot.encode path.kind rs).toValue? with
  | some new =>
    ExceptT.adapt EditError.slot (setInPlace item path new)
    return .written
  | none =>
    let _ ← ExceptT.adapt EditError.slot (removeInPlace item path)
    return .removed

theorem performs_commit (item : Text) (path : ItemPath) (rs : List Record) :
    Performs (commitInPlace item path rs) fun doc => (doc.commit item path rs).answer := by
  intro doc
  simp only [commitInPlace, Document.commit, outcome_bind, InPlace.outcome_get]
  cases doc.item? item with
  | none => rfl
  | some tree =>
    cases (Slot.encode path.kind rs).toValue? with
    | some new =>
      have hset := performs_set item path new
      cases hanswer : doc.set item path new with
      | error e =>
        simp [hset.outcome_of_error hanswer, hanswer, Except.map, Except.mapError]
      | ok after =>
        simp [hset.outcome_of_ok hanswer, hanswer, Except.map, Except.mapError]
    | none =>
      have hremove := performs_remove item path
      cases hanswer : doc.remove item path with
      | error e =>
        simp [hremove.answer_error hanswer, Except.map, Except.mapError]
      | ok removed =>
        simp [hremove.answer_ok hanswer, Except.map, Except.mapError]

/-- One target of a spread in place; a target that cannot be written is skipped. -/
def spreadToInPlace (item : Text) (kind : SlotKind) (rs : List Record) (report : SpreadReport)
    (target : ItemPath) : InPlace Document SpreadError SpreadReport := do
  let skip : SpreadReport := { report with skipped := report.skipped ++ [target] }
  match Spread.merged? kind ((← get).get? item target) rs with
  | none => return skip
  | some merged =>
    match (Slot.encode kind merged).toValue? with
    | none => return skip
    | some new =>
      match ← InPlace.attempt (setInPlace item target new) with
      | .error _ => return skip
      | .ok () => return { report with updated := report.updated ++ [target] }

/-- A spread in place: the targets are written one after the other. -/
def spreadInPlace (item : Text) (source : ItemPath) (rs : List Record) :
    InPlace Document SpreadError SpreadReport := do
  let structured := rs.filter Record.isStructured
  if structured = [] then throw .nothingToSpread
  match (← get).item? item with
  | none => throw (.unknownItem item)
  | some tree =>
    (Spread.targets tree source).foldlM (spreadToInPlace item source.kind structured) {}

theorem outcome_spreadTo (item : Text) (kind : SlotKind) (rs : List Record) (s : Spread.Progress)
    (target : ItemPath) : (spreadToInPlace item kind rs s.report target).outcome s.document
      = (.ok (Spread.step item kind rs s target).report,
        (Spread.step item kind rs s target).document) := by
  simp only [spreadToInPlace, Spread.step, outcome_bind, InPlace.outcome_get]
  cases Spread.merged? kind (s.document.get? item target) rs with
  | none => rfl
  | some merged =>
    cases hnew : (Slot.encode kind merged).toValue? with
    | none => simp [hnew, Spread.Progress.skip]
    | some new =>
      have hset := performs_set item target new
      cases hanswer : s.document.set item target new with
      | error e =>
        simp [outcome_bind, hnew, hset.outcome_of_error hanswer, hanswer, Spread.Progress.skip]
      | ok after => simp [outcome_bind, hnew, hset.outcome_of_ok hanswer, hanswer]

/-- The targets in turn, each on the document that the ones before it have left. -/
theorem outcome_foldlM_spreadTo (item : Text) (kind : SlotKind) (rs : List Record)
    (s : Spread.Progress) (targets : List ItemPath) :
    (targets.foldlM (spreadToInPlace item kind rs) s.report).outcome s.document
      = (.ok (targets.foldl (Spread.step item kind rs) s).report,
        (targets.foldl (Spread.step item kind rs) s).document) := by
  induction targets generalizing s with
  | nil => rfl
  | cons target targets ih =>
    rw [List.foldlM_cons, outcome_bind, outcome_spreadTo, List.foldl_cons]
    exact ih (Spread.step item kind rs s target)

theorem performs_spread (item : Text) (source : ItemPath) (rs : List Record) :
    Performs (spreadInPlace item source rs) fun doc => (doc.spread item source rs).answer := by
  intro doc
  simp only [spreadInPlace, Document.spread]
  split_ifs with hnothing
  · rfl
  · cases htree : doc.item? item with
    | none => simp [outcome_bind, htree]
    | some tree =>
      have hfold := outcome_foldlM_spreadTo item source.kind (rs.filter Record.isStructured)
        { document := doc } (Spread.targets tree source)
      simpa [outcome_bind, htree] using hfold

end ItemConditions.Document
