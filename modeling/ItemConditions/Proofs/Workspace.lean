import ItemConditions.Proofs.Document.Changes
import ItemConditions.Proofs.Session.Step
import ItemConditions.Proofs.Spread.Targets

/-!
# A document and the sessions on it

A workspace is a document with the sessions that are open on it. Whatever is done in it, with any
arguments and in any order, the document keeps its items under their keys, and an item that was
never named is as it was. An operation that fails has changed neither the document nor a session,
though each of them is carried out in place. No operation gives a mapping a key twice, so a document
that was read keeps its keys distinct.

## Main definitions

* `Document.SameBeside`: documents that differ in some items only
* `Workspace`, `Workspace.Operation`: a document with its sessions, and what can be done to them
* `Workspace.run`: the workspace after some operations
* `Workspace.Operation.HasDistinctKeys`: the value that an operation assigns has distinct keys

## Main results

* `Workspace.Operation.performs_act`: an operation is carried out as a whole or not at all
* `Workspace.run_confined`: what a run leaves alone, and what its steps leave alone
* `Workspace.hasDistinctKeys_run`: documents that are read keep their keys distinct
* `Workspace.paths_run`: what is discovered in such a document
-/

namespace ItemConditions

open InPlace (Performs outcome_bind within)

/-! ## Items that are left alone -/

namespace Document

/-- **Documents that differ in some items only**, under the same keys in the same order. -/
structure SameBeside (items : List Text) (doc after : Document) : Prop where
  keys : after.keys = doc.keys
  others : ∀ item ∉ items, after.item? item = doc.item? item

variable {doc mid after : Document} {item : Text} {items : List Text} {path : ItemPath}
  {paths : List ItemPath} {new : Value} {rs : List Record}

theorem SameBeside.refl (items : List Text) (doc : Document) : SameBeside items doc doc :=
  ⟨rfl, fun _ _ => rfl⟩

theorem SameBeside.trans (h : SameBeside items doc mid) (h' : SameBeside items mid after) :
    SameBeside items doc after where
  keys := h'.keys.trans h.keys
  others item hitem := (h'.others item hitem).trans (h.others item hitem)

/-- Changes at paths of an item leave the other items alone. -/
theorem Frame.sameBeside (h : Frame item paths doc after) (hitem : item ∈ items) :
    SameBeside items doc after where
  keys := h.itemKeys
  others other hother := by
    have helsewhere := h.elsewhere other ⟨[]⟩ fun heq => absurd (heq ▸ hitem) hother
    rwa [get?_root, get?_root] at helsewhere

theorem sameBeside_of_set (h : doc.set item path new = .ok after) (hitem : item ∈ items) :
    SameBeside items doc after := by
  obtain ⟨last, container, changed, -, -, -, rfl⟩ := set_eq_ok_iff.mp h
  exact (frame_replaceAt doc item path.parent changed).sameBeside hitem

theorem sameBeside_of_remove {removed? : Option Value}
    (h : doc.remove item path = .ok (removed?, after)) (hitem : item ∈ items) :
    SameBeside items doc after := by
  obtain ⟨last, container, changed, -, -, -, rfl⟩ := remove_eq_ok_iff.mp h
  exact (frame_replaceAt doc item path.parent changed).sameBeside hitem

theorem sameBeside_of_commit {outcome : CommitOutcome}
    (h : (doc.commit item path rs).answer = .ok (outcome, after)) (hitem : item ∈ items) :
    SameBeside items doc after := by
  rcases set_or_remove_of_commit h with ⟨new, -, hset⟩ | ⟨removed?, hremove⟩
  · exact sameBeside_of_set hset hitem
  · exact sameBeside_of_remove hremove hitem

/-- One target of a spread: its item is written to, or nothing is. -/
theorem sameBeside_step (kind : SlotKind) (rs : List Record) (s : Spread.Progress)
    (target : ItemPath) (hitem : item ∈ items) :
    SameBeside items s.document (Spread.step item kind rs s target).document := by
  rw [Spread.step]
  split
  · exact .refl items s.document
  · simp only
    split
    · exact .refl items s.document
    · split
      · exact .refl items s.document
      · next document hset => exact sameBeside_of_set hset hitem

theorem sameBeside_foldl_step (kind : SlotKind) (rs : List Record) (s : Spread.Progress)
    (targets : List ItemPath) (hitem : item ∈ items) : SameBeside items s.document
      (targets.foldl (Spread.step item kind rs) s).document := by
  induction targets generalizing s with
  | nil => exact .refl items s.document
  | cons target targets ih => exact (sameBeside_step kind rs s target hitem).trans (ih _)

theorem sameBeside_of_spread {report : SpreadReport}
    (h : (doc.spread item path rs).answer = .ok (report, after)) (hitem : item ∈ items) :
    SameBeside items doc after := by
  simp only [spread] at h
  split_ifs at h
  split at h
  · simp at h
  · obtain ⟨-, rfl⟩ := Prod.mk.inj (Except.ok.inj h)
    exact sameBeside_foldl_step _ _ { document := doc } _ hitem

end Document

/-! ## Operations -/

/-- **A document with the sessions** that are open on it. -/
structure Workspace where
  document : Document
  sessions : List Session := []

namespace Workspace

/-- **What can be done in a workspace.** -/
inductive Operation where
  | set (item : Text) (path : ItemPath) (new : Value)
  | remove (item : Text) (path : ItemPath)
  | commit (item : Text) (path : ItemPath) (rs : List Record)
  | spread (item : Text) (source : ItemPath) (rs : List Record)
  /-- A new session on the records at a path. -/
  | start (item : Text) (path : ItemPath)
  /-- A step of one of the sessions. -/
  | session (index : Nat) (step : Session.Step)

/-- The item that an operation names; the one of a session was named when it was started. -/
def Operation.item? : Operation → Option Text
  | .set item .. | .remove item .. | .commit item .. | .spread item .. | .start item _ => some item
  | .session .. => none

/-- The operation is there to change the document. -/
def Operation.writes : Operation → Bool
  | .set .. | .remove .. | .commit .. | .spread .. => true
  | .session _ .commit | .session _ .spread => true
  | .start .. | .session .. => false

/-- An operation on the document. -/
def onDocument {ε α : Type} (x : InPlace Document ε α) : InPlace Workspace ε α :=
  within document (fun doc w => { w with document := doc }) x

/-- A session is opened, if it can be. -/
def startInPlace (item : Text) (path : ItemPath) : InPlace Workspace EditError Unit := do
  match Session.start (← get).document item path with
  | .error e => throw e
  | .ok s => modify fun w => { w with sessions := w.sessions ++ [s] }

/-- A step of a session that is open. -/
def stepInPlace (index : Nat) (step : Session.Step) : InPlace Workspace Failure Unit := do
  match (← get).sessions[index]? with
  | none => throw (.noSession index)
  | some s =>
    within (fun w => ⟨s, w.document⟩)
      (fun d w => ⟨d.document, w.sessions.set index d.session⟩) step.act

/-- An operation in place. -/
def Operation.act : Operation → InPlace Workspace Failure Unit
  | .set item path new => ExceptT.adapt .slot <| onDocument (Document.setInPlace item path new)
  | .remove item path =>
    ExceptT.adapt .slot <| (fun _ => ()) <$> onDocument (Document.removeInPlace item path)
  | .commit item path rs =>
    ExceptT.adapt .edit <| (fun _ => ()) <$> onDocument (Document.commitInPlace item path rs)
  | .spread item source rs =>
    ExceptT.adapt .spread <| (fun _ => ()) <$> onDocument (Document.spreadInPlace item source rs)
  | .start item path => ExceptT.adapt .edit <| startInPlace item path
  | .session index step => stepInPlace index step

/-- The workspace after an operation. -/
def Operation.after (w : Workspace) : Operation → Except Failure Workspace
  | .set item path new =>
    ((w.document.set item path new).map fun doc => { w with document := doc }).mapError .slot
  | .remove item path =>
    ((w.document.remove item path).map fun (_, doc) => { w with document := doc }).mapError .slot
  | .commit item path rs =>
    ((w.document.commit item path rs).answer.map fun (_, doc) =>
      { w with document := doc }).mapError .edit
  | .spread item source rs =>
    ((w.document.spread item source rs).answer.map fun (_, doc) =>
      { w with document := doc }).mapError .spread
  | .start item path =>
    ((Session.start w.document item path).map fun s =>
      { w with sessions := w.sessions ++ [s] }).mapError .edit
  | .session index step =>
    match w.sessions[index]? with
    | none => .error (.noSession index)
    | some s =>
      (step.after ⟨s, w.document⟩).map fun d => ⟨d.document, w.sessions.set index d.session⟩

/-- The workspace after some operations, carried out in place one after the other. -/
def run (w : Workspace) (operations : List Operation) : Workspace :=
  operations.foldl (fun w operation => (operation.act.outcome w).2) w

theorem run_cons (w : Workspace) (operation : Operation) (operations : List Operation) :
    w.run (operation :: operations) = (operation.act.outcome w).2.run operations := rfl

variable {w after : Workspace} {operation : Operation} {items : List Text}

/-- An operation is carried out as a whole or not at all. -/
theorem Operation.performs_act (operation : Operation) :
    Performs operation.act fun w => (operation.after w).map fun after => ((), after) := by
  intro w
  cases operation with
  | set item path new =>
    have hset := Document.performs_set item path new w.document
    simp only [act, Operation.after, onDocument, InPlace.outcome_adapt, InPlace.outcome_within,
      hset]
    cases w.document.set item path new <;> rfl
  | remove item path =>
    have hremove := Document.performs_remove item path w.document
    simp only [act, Operation.after, onDocument, InPlace.outcome_adapt, InPlace.outcome_map,
      InPlace.outcome_within, hremove]
    cases w.document.remove item path <;> rfl
  | commit item path rs =>
    have hcommit := Document.performs_commit item path rs w.document
    simp only [act, Operation.after, onDocument, InPlace.outcome_adapt, InPlace.outcome_map,
      InPlace.outcome_within, hcommit]
    cases (w.document.commit item path rs).answer <;> rfl
  | spread item source rs =>
    have hspread := Document.performs_spread item source rs w.document
    simp only [act, Operation.after, onDocument, InPlace.outcome_adapt, InPlace.outcome_map,
      InPlace.outcome_within, hspread]
    cases (w.document.spread item source rs).answer <;> rfl
  | start item path =>
    simp only [act, Operation.after, startInPlace, InPlace.outcome_adapt, outcome_bind,
      InPlace.outcome_get]
    cases Session.start w.document item path <;> rfl
  | session index step =>
    simp only [act, Operation.after, stepInPlace, outcome_bind, InPlace.outcome_get]
    cases hs : w.sessions[index]? with
    | none => rfl
    | some s =>
      simp only [InPlace.outcome_within]
      cases hafter : step.after ⟨s, w.document⟩ with
      | ok d =>
        rw [step.performs_act.outcome_of_ok hafter]
        rfl
      | error e =>
        obtain ⟨hindex, rfl⟩ := List.getElem?_eq_some_iff.mp hs
        rw [step.performs_act.outcome_of_error hafter]
        simp [Except.map]

/-! ## One operation -/

theorem sameBeside_of_step {s : Session} {doc : Document} {d : Desk} {step : Session.Step}
    (h : step.after ⟨s, doc⟩ = .ok d) (hs : s.item ∈ items) :
    Document.SameBeside items doc d.document := by
  rcases Session.document_of_after h with hsame | ⟨-, outcome, hcommit⟩ | ⟨-, report, hspread⟩
  · rw [hsame]
    exact .refl items doc
  · exact Document.sameBeside_of_commit hcommit hs
  · exact Document.sameBeside_of_spread hspread hs

/-- An operation leaves the items alone that neither it nor an open session names, and what it
opens is open on an item that it names. -/
theorem sameBeside_of_after (h : operation.after w = .ok after)
    (hoperation : ∀ item ∈ operation.item?, item ∈ items)
    (hsessions : ∀ s ∈ w.sessions, s.item ∈ items) :
    Document.SameBeside items w.document after.document ∧
      ∀ s ∈ after.sessions, s.item ∈ items := by
  cases operation with
  | set item path new =>
    obtain ⟨doc, hdoc, rfl⟩ := ok_of_map (ok_of_mapError h)
    exact ⟨Document.sameBeside_of_set hdoc (hoperation item rfl), hsessions⟩
  | remove item path =>
    obtain ⟨⟨removed?, doc⟩, hdoc, rfl⟩ := ok_of_map (ok_of_mapError h)
    exact ⟨Document.sameBeside_of_remove hdoc (hoperation item rfl), hsessions⟩
  | commit item path rs =>
    obtain ⟨⟨outcome, doc⟩, hdoc, rfl⟩ := ok_of_map (ok_of_mapError h)
    exact ⟨Document.sameBeside_of_commit hdoc (hoperation item rfl), hsessions⟩
  | spread item source rs =>
    obtain ⟨⟨report, doc⟩, hdoc, rfl⟩ := ok_of_map (ok_of_mapError h)
    exact ⟨Document.sameBeside_of_spread hdoc (hoperation item rfl), hsessions⟩
  | start item path =>
    obtain ⟨s, hs, rfl⟩ := ok_of_map (ok_of_mapError h)
    refine ⟨.refl items w.document, fun s' hs' => ?_⟩
    rcases List.mem_append.mp hs' with hs' | hs'
    · exact hsessions s' hs'
    · rw [List.mem_singleton.mp hs', (Session.place_of_start hs).1]
      exact hoperation item rfl
  | session index step =>
    rw [Operation.after] at h
    split at h
    · simp at h
    · next s hs =>
      obtain ⟨d, hd, rfl⟩ := ok_of_map h
      have hitem := hsessions s (List.mem_of_getElem? hs)
      refine ⟨sameBeside_of_step hd hitem, fun s' hs' => ?_⟩
      rcases List.mem_or_eq_of_mem_set hs' with hs' | rfl
      · exact hsessions s' hs'
      · rwa [(Session.yields_of_after hd).place.1]

/-- An operation that is there for something else leaves the document alone. -/
theorem document_of_after (h : operation.after w = .ok after) (hwrites : operation.writes = false) :
    after.document = w.document := by
  cases operation with
  | start item path =>
    obtain ⟨s, -, rfl⟩ := ok_of_map (ok_of_mapError h)
    rfl
  | session index step =>
    rw [Operation.after] at h
    split at h
    · simp at h
    · obtain ⟨d, hd, rfl⟩ := ok_of_map h
      rcases Session.document_of_after hd with hsame | ⟨rfl, -⟩ | ⟨rfl, -⟩
      · exact hsame
      · simp [Operation.writes] at hwrites
      · simp [Operation.writes] at hwrites
  | _ => simp [Operation.writes] at hwrites

/-! ## Runs -/

/-- A run leaves the items alone that are never named. -/
theorem sameBeside_run (operations : List Operation)
    (hoperations : ∀ operation ∈ operations, ∀ item ∈ operation.item?, item ∈ items)
    (hsessions : ∀ s ∈ w.sessions, s.item ∈ items) :
    Document.SameBeside items w.document (w.run operations).document := by
  -- The items that the open sessions name are carried along: a session may write at any later time.
  induction operations generalizing w with
  | nil => exact .refl items w.document
  | cons operation operations ih =>
    obtain ⟨hoperation, hoperations⟩ := List.forall_mem_cons.mp hoperations
    rw [run_cons]
    cases hafter : operation.after w with
    | error e =>
      rw [operation.performs_act.outcome_of_error hafter]
      exact ih hoperations hsessions
    | ok after =>
      rw [operation.performs_act.outcome_of_ok hafter]
      obtain ⟨hbeside, hsessions'⟩ := sameBeside_of_after hafter hoperation hsessions
      exact hbeside.trans (ih hoperations hsessions')

/-- **What is done in a workspace stays where it is meant to be.** After any operations the items
stand under the same keys in the same order, and those that were never named are as they were. Of
any further operation: where it fails, the document and all sessions are as they were, and the
document is changed only by an assignment, a withdrawal, a commit or a spread that succeeds. -/
theorem run_confined (doc : Document) (operations : List Operation) :
    let w := run { document := doc } operations
    w.document.keys = doc.keys ∧
    (∀ item, (∀ operation ∈ operations, operation.item? ≠ some item) →
      w.document.item? item = doc.item? item) ∧
    ∀ (operation : Operation) answer after, operation.act.outcome w = (answer, after) →
      (∀ e, answer = .error e → after = w) ∧
      (after.document ≠ w.document → operation.writes ∧ answer = .ok ()) := by
  intro w
  have hbeside : Document.SameBeside (operations.filterMap Operation.item?) doc w.document :=
    sameBeside_run (w := { document := doc }) operations
      (fun operation hoperation item hitem => List.mem_filterMap.mpr ⟨operation, hoperation, hitem⟩)
      fun s hs => absurd hs List.not_mem_nil
  refine ⟨hbeside.keys, fun item hitem => hbeside.others item fun hmem => ?_, ?_⟩
  · obtain ⟨operation, hoperation, hname⟩ := List.mem_filterMap.mp hmem
    exact hitem operation hoperation hname
  · rintro operation answer after hact
    refine ⟨?_, fun hchanged => ?_⟩
    · rintro e rfl
      exact operation.performs_act.eq_of_error hact
    · cases hafter : operation.after w with
      | error e =>
        rw [operation.performs_act.outcome_of_error hafter] at hact
        obtain ⟨-, rfl⟩ := Prod.mk.inj hact
        exact absurd rfl hchanged
      | ok after' =>
        rw [operation.performs_act.outcome_of_ok hafter] at hact
        obtain ⟨rfl, rfl⟩ := Prod.mk.inj hact
        refine ⟨?_, rfl⟩
        by_contra hwrites
        exact hchanged (document_of_after hafter (Bool.eq_false_iff.mpr hwrites))

/-- A session on one item of two is edited and committed; then the deletion of a record that is not
there fails, and changes nothing. -/
theorem run_confined_session :
    let path : ItemPath := ⟨["needcondition".toList]⟩
    let ring : Value := .mapping [("lore".toList, .string "old".toList)]
    let doc : Document := ⟨[("gem".toList, .mapping [("needcondition".toList, .string ['a'])]),
      ("ring".toList, ring)]⟩
    let w := run { document := doc } [.start "gem".toList path,
      .session 0 (.revise (.edit 0 (.key ['b']))), .session 0 .commit]
    let delete : Operation := .session 0 (.revise (.delete 7))
    w.document.get? "gem".toList path = some (.string "js: b".toList) ∧
      w.document.keys = ["gem".toList, "ring".toList] ∧
      w.document.item? "ring".toList = some ring ∧
      (delete.act.outcome w).1 = .error (.edit (.indexOutOfRange 7 1)) ∧
      (delete.act.outcome w).2 = w := by
  intro path ring doc w delete
  obtain ⟨hkeys, hothers, hfurther⟩ := run_confined doc [.start "gem".toList path,
    .session 0 (.revise (.edit 0 (.key ['b']))), .session 0 .commit]
  have hring := hothers "ring".toList (by simp [Operation.item?])
  have hfails : (delete.act.outcome w).1 = .error (.edit (.indexOutOfRange 7 1)) := by
    decide +kernel
  have hget : w.document.get? "gem".toList path = some (.string "js: b".toList) := rfl
  have hw := (hfurther delete _ _ (Prod.mk.eta).symm).1 _ hfails
  exact ⟨hget, hkeys, hring, hfails, hw⟩

/-! ## Distinct keys -/

/-- The value that an operation assigns has distinct keys, as every value has that was read. -/
def Operation.HasDistinctKeys : Operation → Prop
  | .set _ _ new => new.HasDistinctKeys
  | _ => True

/-- An operation keeps keys distinct. -/
theorem hasDistinctKeys_of_after (h : operation.after w = .ok after)
    (hoperation : operation.HasDistinctKeys) (hkeys : w.document.HasDistinctKeys) :
    after.document.HasDistinctKeys := by
  cases operation with
  | set item path new =>
    obtain ⟨doc, hdoc, rfl⟩ := ok_of_map (ok_of_mapError h)
    exact hkeys.set hoperation hdoc
  | remove item path =>
    obtain ⟨⟨removed?, doc⟩, hdoc, rfl⟩ := ok_of_map (ok_of_mapError h)
    exact hkeys.remove hdoc
  | commit item path rs =>
    obtain ⟨⟨outcome, doc⟩, hdoc, rfl⟩ := ok_of_map (ok_of_mapError h)
    exact hkeys.commit hdoc
  | spread item source rs =>
    obtain ⟨⟨report, doc⟩, hdoc, rfl⟩ := ok_of_map (ok_of_mapError h)
    exact hkeys.spread hdoc
  | start item path =>
    obtain ⟨s, -, rfl⟩ := ok_of_map (ok_of_mapError h)
    exact hkeys
  | session index step =>
    rw [Operation.after] at h
    split at h
    · simp at h
    · obtain ⟨d, hd, rfl⟩ := ok_of_map h
      rcases Session.document_of_after hd with hsame | ⟨-, outcome, hcommit⟩ | ⟨-, report, hspread⟩
      · rwa [hsame]
      · exact hkeys.commit hcommit
      · exact hkeys.spread hspread

/-- **Documents that are read keep their keys distinct**, whatever is done with them. -/
theorem hasDistinctKeys_run {t : Text} {doc : Document} (hread : Document.ofYaml t = .ok doc)
    (operations : List Operation) (hvalues : ∀ operation ∈ operations, operation.HasDistinctKeys) :
    (run { document := doc } operations).document.HasDistinctKeys := by
  suffices hrun : ∀ w : Workspace, w.document.HasDistinctKeys →
      (w.run operations).document.HasDistinctKeys from
    hrun { document := doc } (Document.hasDistinctKeys_of_ofYaml hread)
  induction operations with
  | nil => exact fun w hkeys => hkeys
  | cons operation operations ih =>
    obtain ⟨hvalue, hvalues⟩ := List.forall_mem_cons.mp hvalues
    intro w hkeys
    rw [run_cons]
    cases hafter : operation.after w with
    | error e =>
      rw [operation.performs_act.outcome_of_error hafter]
      exact ih hvalues w hkeys
    | ok after =>
      rw [operation.performs_act.outcome_of_ok hafter]
      exact ih hvalues after (hasDistinctKeys_of_after hafter hvalue hkeys)

/-- **What is discovered in a document that was read**, whatever has been done with it: the places
that an item lists, in their order and none twice, and no one inside another. -/
theorem paths_run {t : Text} {doc : Document} (hread : Document.ofYaml t = .ok doc)
    (operations : List Operation) (hvalues : ∀ operation ∈ operations, operation.HasDistinctKeys)
    {item : Text} {tree : Value}
    (htree : (run { document := doc } operations).document.item? item = some tree) :
    (∀ p, p ∈ Discovery.paths tree ↔ ∃ v, Discovery.Listed tree p v) ∧
      (Discovery.paths tree).Pairwise (Discovery.Precedes (Discovery.listKeys tree)) ∧
      ∀ p ∈ Discovery.paths tree, ∀ q ∈ Discovery.paths tree, p ≠ q →
        Value.Apart p.segments q.segments := by
  have hkeys : tree.HasDistinctKeys := (hasDistinctKeys_run hread operations hvalues).item? htree
  exact ⟨fun p => Discovery.mem_paths_iff hkeys, Discovery.pairwise_precedes_paths hkeys,
    fun p hp q hq hne => Discovery.apart_of_mem_paths hkeys hp hq hne⟩

end Workspace

end ItemConditions
