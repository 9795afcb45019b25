import ItemConditions.Record.Edit
import ItemConditions.Session
import ItemConditions.Proofs.Document.DistinctKeys
import ItemConditions.Proofs.Document.InPlace

/-!
# The steps of a session

A session is revised without the document; a commit and a spread take the document that the session
is open on. The steps are carried out in place, with the checks and the changes in the order in
which they are made. Each of them answers as the function of the same name, and where it fails it
has changed neither the session nor the document.

## Main definitions

* `Session.Revision`, `Session.revise`: a revision of the records or of the selection
* `Session.reviseAll`: the session after some revisions, of which those that fail count for nothing
* `Desk`, `Session.Step`: a session with its document, and the steps of the two
* `Session.Revision.act`, `Session.Step.act`: the same in place
* `Session.Yields`: what a step makes of a session

## Main results

* `Session.Step.performs_act`: a step is carried out as a whole or not at all
* `Session.yields_of_after`, `Session.document_of_after`: all that a step can do
-/

namespace ItemConditions

open InPlace (Performs outcome_bind within)

/-- Why a step fails. -/
inductive Failure where
  | slot (error : SlotError)
  | edit (error : EditError)
  | spread (error : SpreadError)
  /-- No session is open under the number. -/
  | noSession (index : Nat)
deriving DecidableEq, Repr

/-- A session with the document that it is open on. -/
structure Desk where
  session : Session
  document : Document

namespace Session

/-! ## Revisions -/

/-- **A revision** of the records or of the selection. -/
inductive Revision where
  | select (index : Nat)
  | add
  | delete (index : Nat)
  | update (index : Nat) (new : Record)
  | edit (index : Nat) (edit : Edit)
deriving DecidableEq, Repr

/-- **The session after a revision.** -/
def revise (s : Session) : Revision → Except EditError Session
  | .select i => (s.select i).map Prod.snd
  | .add => .ok s.add.2
  | .delete i => (s.delete i).map Prod.snd
  | .update i new => s.update i new
  | .edit i e => s.edit i e.apply

/-- The record at an index, which has to be there. -/
def recordInPlace (i : Nat) : InPlace Session EditError Record := do
  let s ← get
  match s.records[i]? with
  | some r => return r
  | none => throw (.indexOutOfRange i s.records.length)

/-- A change of the record at an index. -/
def editInPlace (i : Nat) (f : Record → Record) : InPlace Session EditError Unit := do
  let r ← recordInPlace i
  modify fun s => { s with records := s.records.set i (f r) }

/-- A revision in place. -/
def Revision.act : Revision → InPlace Session EditError Unit
  | .select i => do
    let _ ← recordInPlace i
    modify fun s => { s with selected := some i }
  | .add => do
    modify fun s => { s with records := s.records ++ [fresh s.kind] }
    modify fun s => { s with selected := some (s.records.length - 1) }
  | .delete i => do
    let _ ← recordInPlace i
    modify fun s => { s with selected := none }
    modify fun s => { s with records := s.records.eraseIdx i }
  | .update i new => editInPlace i fun _ => new
  | .edit i e => editInPlace i e.apply

/-- **The session after some revisions**, carried out in place one after the other. -/
def reviseAll (s : Session) (revisions : List Revision) : Session :=
  revisions.foldl (fun s revision => (revision.act.outcome s).2) s

theorem performs_record (i : Nat) :
    Performs (recordInPlace i) fun s => (s.record i).map fun r => (r, s) := by
  intro s
  simp only [recordInPlace, record, outcome_bind, InPlace.outcome_get]
  cases s.records[i]? <;> rfl

theorem performs_edit (i : Nat) (f : Record → Record) :
    Performs (editInPlace i f) fun s => (s.edit i f).map fun after => ((), after) := by
  intro s
  have hrecord := performs_record i s
  simp only [editInPlace, edit, outcome_bind, hrecord]
  cases s.record i <;> rfl

/-- A revision is carried out as a whole or not at all. -/
theorem Revision.performs_act (revision : Revision) :
    Performs revision.act fun s => (s.revise revision).map fun after => ((), after) := by
  cases revision with
  | select i =>
    intro s
    have hrecord := performs_record i s
    simp only [act, revise, Session.select, outcome_bind, hrecord]
    cases s.record i <;> rfl
  | add =>
    intro s
    simp [act, revise, Session.add, outcome_bind, Except.map]
  | delete i =>
    intro s
    have hrecord := performs_record i s
    simp only [act, revise, Session.delete, outcome_bind, hrecord]
    cases s.record i <;> rfl
  | update i new => exact performs_edit i fun _ => new
  | edit i e => exact performs_edit i e.apply

/-! ## Steps -/

/-- A step of a session: a revision, a commit or a spread. -/
inductive Step where
  | revise (revision : Revision)
  | commit
  | spread
deriving DecidableEq, Repr

/-- A commit in place: the document is written first, then the texts of the records and what
counts as loaded. -/
def commitInPlace : InPlace Desk EditError CommitOutcome := do
  let s := (← get).session
  if !s.isDirty then return .unchanged
  let outcome ← within Desk.document (fun doc d => { d with document := doc })
    (Document.commitInPlace s.item s.path s.records)
  modify fun d => { d with session := { d.session with
    records := d.session.records.map (refreshed d.session.kind) } }
  modify fun d => { d with session := { d.session with loaded := d.session.records } }
  return outcome

/-- A spread in place: the session is left as it is. -/
def spreadInPlace : InPlace Desk SpreadError SpreadReport := do
  let s := (← get).session
  within Desk.document (fun doc d => { d with document := doc })
    (Document.spreadInPlace s.item s.path s.records)

/-- A step in place. -/
def Step.act : Step → InPlace Desk Failure Unit
  | .revise revision => ExceptT.adapt .edit <|
    within Desk.session (fun s d => { d with session := s }) revision.act
  | .commit => ExceptT.adapt .edit <| (fun _ => ()) <$> commitInPlace
  | .spread => ExceptT.adapt .spread <| (fun _ => ()) <$> spreadInPlace

/-- The session and the document after a step. -/
def Step.after (d : Desk) : Step → Except Failure Desk
  | .revise revision =>
    ((d.session.revise revision).map fun s => { d with session := s }).mapError .edit
  | .commit =>
    ((d.session.commit d.document).answer.map fun (_, s, doc) => ⟨s, doc⟩).mapError .edit
  | .spread =>
    ((d.session.spread d.document).answer.map fun (_, doc) => { d with document := doc }).mapError
      .spread

theorem performs_commit : Performs commitInPlace fun d =>
    (d.session.commit d.document).answer.map fun (outcome, s, doc) => (outcome, ⟨s, doc⟩) := by
  intro d
  have hcommit := Document.performs_commit d.session.item d.session.path d.session.records
  simp only [commitInPlace, commit, outcome_bind, InPlace.outcome_get]
  cases hdirty : d.session.isDirty with
  | false => rfl
  | true =>
    cases hanswer : (d.document.commit d.session.item d.session.path d.session.records).answer with
    | error e => simp [outcome_bind, hcommit.answer_error hanswer, Except.map]
    | ok committed => simp [outcome_bind, hcommit.answer_ok hanswer, Except.map]

theorem performs_spread : Performs spreadInPlace fun d =>
    (d.session.spread d.document).answer.map fun (report, doc) =>
      (report, { d with document := doc }) := by
  intro d
  have hspread := Document.performs_spread d.session.item d.session.path d.session.records
    d.document
  simp only [spreadInPlace, spread, outcome_bind, InPlace.outcome_get, InPlace.outcome_within,
    hspread]
  rcases (d.document.spread d.session.item d.session.path d.session.records).answer
    with e | ⟨report, doc⟩ <;> rfl

/-- **A step** is carried out as a whole or not at all. -/
theorem Step.performs_act (step : Step) :
    Performs step.act fun d => (step.after d).map fun after => ((), after) := by
  intro d
  cases step with
  | revise revision =>
    have hrevision := revision.performs_act d.session
    simp only [act, after, InPlace.outcome_adapt, InPlace.outcome_within, hrevision]
    cases d.session.revise revision <;> rfl
  | commit =>
    have hcommit := performs_commit d
    simp only [act, after, InPlace.outcome_adapt, InPlace.outcome_map, hcommit]
    cases (d.session.commit d.document).answer <;> rfl
  | spread =>
    have hspread := performs_spread d
    simp only [act, after, InPlace.outcome_adapt, InPlace.outcome_map, hspread]
    cases (d.session.spread d.document).answer <;> rfl

/-! ## All that a step can do -/

/-- A record with another text; only a structured one gets it. -/
def Retexted (r r' : Record) : Prop :=
  r' = r ∨ r.isStructured ∧ r' = { r with rawText := r'.rawText }

/-- What a step makes of a session. The place and the kind are never touched. -/
inductive Yields : Session → Step → Session → Prop
  | select {s : Session} {i : Nat} (hi : i < s.records.length) :
    Yields s (.revise (.select i)) { s with selected := some i }
  | add {s : Session} : Yields s (.revise .add)
    { s with records := s.records ++ [fresh s.kind], selected := some s.records.length }
  | delete {s : Session} {i : Nat} (hi : i < s.records.length) :
    Yields s (.revise (.delete i)) { s with records := s.records.eraseIdx i, selected := none }
  | update {s : Session} {i : Nat} (hi : i < s.records.length) (new : Record) :
    Yields s (.revise (.update i new)) { s with records := s.records.set i new }
  | edit {s : Session} {i : Nat} (hi : i < s.records.length) (e : Edit) :
    Yields s (.revise (.edit i e)) { s with records := s.records.set i (e.apply s.records[i]) }
  /-- Nothing is written where the records are the loaded ones. -/
  | clean {s : Session} (hclean : Record.sameList s.records s.loaded) : Yields s .commit s
  | written {s : Session} {rs : List Record} (hdirty : ¬ Record.sameList s.records s.loaded)
    (hrs : List.Forall₂ Retexted s.records rs) :
    Yields s .commit { s with records := rs, loaded := rs }
  | spread {s : Session} : Yields s .spread s

variable {s s' : Session} {d d' : Desk} {revision : Revision} {step : Step} {i : Nat}

theorem exists_of_record {r : Record} (h : s.record i = .ok r) :
    ∃ hi : i < s.records.length, s.records[i] = r := by
  rw [record] at h
  split at h
  · next r' hr' =>
    obtain rfl := Except.ok.inj h
    exact List.getElem?_eq_some_iff.mp hr'
  · simp at h

theorem retexted_refreshed (kind : SlotKind) (r : Record) : Retexted r (refreshed kind r) := by
  rw [refreshed]
  split_ifs with hstructured
  · exact Or.inr ⟨hstructured, rfl⟩
  · exact Or.inl rfl

@[simp] theorem condition_refreshed (kind : SlotKind) (r : Record) :
    (refreshed kind r).condition = r.condition := by
  rw [refreshed]
  split <;> rfl

@[simp] theorem isAction_refreshed (kind : SlotKind) (r : Record) :
    (refreshed kind r).isAction = r.isAction := by
  rw [refreshed]
  split <;> rfl

@[simp] theorem comparator_refreshed (kind : SlotKind) (r : Record) :
    (refreshed kind r).comparator = r.comparator := by
  rw [refreshed]
  split <;> rfl

/-- All that a revision can do. -/
theorem yields_of_revise (h : s.revise revision = .ok s') : Yields s (.revise revision) s' := by
  cases revision with
  | select i =>
    obtain ⟨_, hselect, rfl⟩ := ok_of_map h
    obtain ⟨r, hr, rfl⟩ := ok_of_map hselect
    obtain ⟨hi, -⟩ := exists_of_record hr
    exact .select hi
  | add =>
    obtain rfl := Except.ok.inj h
    exact .add
  | delete i =>
    obtain ⟨_, hdelete, rfl⟩ := ok_of_map h
    obtain ⟨r, hr, rfl⟩ := ok_of_map hdelete
    obtain ⟨hi, -⟩ := exists_of_record hr
    exact .delete hi
  | update i new =>
    obtain ⟨r, hr, rfl⟩ := ok_of_map h
    obtain ⟨hi, -⟩ := exists_of_record hr
    exact .update hi new
  | edit i e =>
    obtain ⟨r, hr, rfl⟩ := ok_of_map h
    obtain ⟨hi, rfl⟩ := exists_of_record hr
    exact .edit hi e

/-- All that a commit can do: nothing, or write to the document and take the new texts. -/
theorem commit_cases {doc after : Document} {outcome : CommitOutcome}
    (h : (s.commit doc).answer = .ok (outcome, s', after)) :
    (Record.sameList s.records s.loaded ∧ outcome = .unchanged ∧ s' = s ∧ after = doc) ∨
      (¬ Record.sameList s.records s.loaded ∧
        (doc.commit s.item s.path s.records).answer = .ok (outcome, after) ∧
        s' = { s with records := s.records.map (refreshed s.kind)
                      loaded := s.records.map (refreshed s.kind) }) := by
  simp only [commit, isDirty, Bool.not_not] at h
  split_ifs at h with hclean
  · obtain ⟨rfl, rfl, rfl⟩ : .unchanged = outcome ∧ s = s' ∧ doc = after := by simpa using h
    exact Or.inl ⟨hclean, rfl, rfl, rfl⟩
  · split at h
    · simp at h
    · next outcome' doc' hanswer =>
      obtain ⟨rfl, rfl, rfl⟩ := by simpa using h
      exact Or.inr ⟨hclean, hanswer, rfl⟩

theorem commit_of_clean (h : Record.sameList s.records s.loaded) (doc : Document) :
    (s.commit doc).answer = .ok (.unchanged, s, doc) := by
  simp [commit, isDirty, h]

theorem commit_of_dirty {doc after : Document} {outcome : CommitOutcome}
    (h : ¬ Record.sameList s.records s.loaded)
    (hcommit : (doc.commit s.item s.path s.records).answer = .ok (outcome, after)) :
    (s.commit doc).answer = .ok (outcome,
      { s with records := s.records.map (refreshed s.kind)
               loaded := s.records.map (refreshed s.kind) }, after) := by
  simp [commit, isDirty, h, hcommit]

/-- **All that a step can do to a session.** -/
theorem yields_of_after (h : step.after d = .ok d') : Yields d.session step d'.session := by
  cases step with
  | revise revision =>
    obtain ⟨s, hs, rfl⟩ := ok_of_map (ok_of_mapError h)
    exact yields_of_revise hs
  | commit =>
    obtain ⟨⟨outcome, s, doc⟩, hs, rfl⟩ := ok_of_map (ok_of_mapError h)
    rcases commit_cases hs with ⟨hclean, -, rfl, -⟩ | ⟨hdirty, -, rfl⟩
    · exact .clean hclean
    · refine .written hdirty (List.forall₂_map_right_iff.mpr (List.forall₂_same.mpr ?_))
      exact fun r _ => retexted_refreshed d.session.kind r
  | spread =>
    obtain ⟨⟨report, doc⟩, -, rfl⟩ := ok_of_map (ok_of_mapError h)
    exact .spread

/-- **All that a step can do to a document.** -/
theorem document_of_after (h : step.after d = .ok d') :
    d'.document = d.document ∨
    (step = .commit ∧ ∃ outcome,
      (d.document.commit d.session.item d.session.path d.session.records).answer
        = .ok (outcome, d'.document)) ∨
    (step = .spread ∧ ∃ report,
      (d.document.spread d.session.item d.session.path d.session.records).answer
        = .ok (report, d'.document)) := by
  cases step with
  | revise revision =>
    obtain ⟨s, -, rfl⟩ := ok_of_map (ok_of_mapError h)
    exact Or.inl rfl
  | commit =>
    obtain ⟨⟨outcome, s, doc⟩, hs, rfl⟩ := ok_of_map (ok_of_mapError h)
    rcases commit_cases hs with ⟨-, -, -, rfl⟩ | ⟨-, hanswer, -⟩
    · exact Or.inl rfl
    · exact Or.inr (Or.inl ⟨rfl, outcome, hanswer⟩)
  | spread =>
    obtain ⟨⟨report, doc⟩, hs, rfl⟩ := ok_of_map (ok_of_mapError h)
    exact Or.inr (Or.inr ⟨rfl, report, hs⟩)

/-- What every revision that succeeds keeps holds after all of them; the others change
nothing. -/
theorem reviseAll_induction {P : Session → Prop} {revisions : List Revision} (hs : P s)
    (h : ∀ revision ∈ revisions, ∀ s s', Yields s (.revise revision) s' → P s → P s') :
    P (s.reviseAll revisions) := by
  induction revisions generalizing s with
  | nil => exact hs
  | cons revision revisions ih =>
    obtain ⟨hrevision, h⟩ := List.forall_mem_cons.mp h
    rw [reviseAll, List.foldl_cons]
    refine ih ?_ h
    cases hrevise : s.revise revision with
    | error e =>
      rw [revision.performs_act.outcome_of_error hrevise]
      exact hs
    | ok s' =>
      rw [revision.performs_act.outcome_of_ok hrevise]
      exact hrevision s s' (yields_of_revise hrevise) hs

/-- The place of a session is never changed. -/
theorem Yields.place (h : Yields s step s') : s'.item = s.item ∧ s'.path = s.path := by
  cases h <;> exact ⟨rfl, rfl⟩

/-! ## From the start -/

theorem exists_of_start {doc : Document} {item : Text} {path : ItemPath}
    (h : start doc item path = .ok s) : ∃ rs, doc.load item path = .ok rs ∧
      s = ⟨item, path, rs, rs, if rs.isEmpty then none else some 0⟩ := by
  obtain ⟨rs, hrs, rfl⟩ := ok_of_map h
  exact ⟨rs, hrs, rfl⟩

theorem place_of_start {doc : Document} {item : Text} {path : ItemPath}
    (h : start doc item path = .ok s) : s.item = item ∧ s.path = path := by
  obtain ⟨rs, -, rfl⟩ := exists_of_start h
  exact ⟨rfl, rfl⟩

/-- Revisions leave the session where it was opened. -/
theorem place_reviseAll_of_start {doc : Document} {item : Text} {path : ItemPath}
    (h : start doc item path = .ok s) (revisions : List Revision) :
    (s.reviseAll revisions).item = item ∧ (s.reviseAll revisions).path = path := by
  refine reviseAll_induction (P := fun t => t.item = item ∧ t.path = path) (place_of_start h) ?_
  intro revision _ t t' hyields ht
  exact ⟨hyields.place.1.trans ht.1, hyields.place.2.trans ht.2⟩

end Session

end ItemConditions
