import ItemConditions.Proofs.Session.Step

/-!
# Runs of a session

A session takes steps one after the other, each on the document as it is at the time; a step that
fails counts for nothing. Where the session is open never changes, and a selection is always one of
the records, also when records before it are deleted. The records are those that were loaded,
changed by the steps that succeeded. What counts as loaded is what the last commit has left that had
something to write.

## Main definitions

* `Session.run`: the session after some steps
* `Session.successes`: the steps that succeed
* `Session.snapshot`: the records as they were loaded or last written
* `Session.YieldsAll`: what several steps make of a session

## Main results

* `Session.Yields.selected_lt`: one step keeps the selection inside the records
* `Session.yieldsAll_run`: the steps that succeed make the session what it is
* `Session.run_sound`: what holds after every run
-/

namespace ItemConditions.Session

variable {s s' s'' : Session} {step : Step} {steps : List Step}

/-- What several steps make of a session. -/
inductive YieldsAll : Session → List Step → Session → Prop
  | nil (s : Session) : YieldsAll s [] s
  | cons {s s' s'' : Session} {step : Step} {steps : List Step} (h : Yields s step s')
    (hs : YieldsAll s' steps s'') : YieldsAll s (step :: steps) s''

/-! ## One step -/

/-- **A step that succeeds** keeps the selection inside the records. -/
theorem Yields.selected_lt (h : Yields s step s') (hs : ∀ i ∈ s.selected, i < s.records.length) :
    ∀ i ∈ s'.selected, i < s'.records.length := by
  cases h with
  | select hi =>
    rintro i ⟨⟩
    exact hi
  | add =>
    rintro i ⟨⟩
    simp
  | delete hi => simp
  | update hi new => simpa using hs
  | edit hi e => simpa using hs
  | clean hclean => exact hs
  | written hdirty hrs =>
    rw [hrs.length_eq] at hs
    exact hs
  | spread => exact hs

/-- What counts as loaded is changed by a commit that has something to write. -/
theorem Yields.loaded_eq (h : Yields s step s') :
    s'.loaded = if step = .commit ∧ ¬ Record.sameList s.records s.loaded then s'.records
      else s.loaded := by
  cases h with
  | clean hclean => simp [hclean]
  | written hdirty hrs => simp [hdirty]
  | _ => simp

/-- A step succeeds with what it yields, or fails and leaves all as it was. -/
theorem outcome_cases (step : Step) (d : Desk) :
    (∃ d', step.act.outcome d = (.ok (), d') ∧ Yields d.session step d'.session) ∨
      ∃ e, step.act.outcome d = (.error e, d) := by
  cases hafter : step.after d with
  | ok d' => exact Or.inl ⟨d', step.performs_act.outcome_of_ok hafter, yields_of_after hafter⟩
  | error e => exact Or.inr ⟨e, step.performs_act.outcome_of_error hafter⟩

/-! ## Runs -/

/-- **The session after some steps**, each with the document that it is taken on. -/
def run (s : Session) : List (Document × Step) → Session
  | [] => s
  | (doc, step) :: steps => (step.act.outcome ⟨s, doc⟩).2.session.run steps

/-- **The steps that succeed**, in their order. -/
def successes (s : Session) : List (Document × Step) → List Step
  | [] => []
  | (doc, step) :: steps =>
    let outcome := step.act.outcome ⟨s, doc⟩
    if outcome.1.isOk then step :: outcome.2.session.successes steps
    else outcome.2.session.successes steps

/-- **The records as they were loaded or last written**: a commit that succeeds takes them if they
are not the same as those that it took before. -/
def snapshot (s : Session) (taken : List Record) : List (Document × Step) → List Record
  | [] => taken
  | (doc, step) :: steps =>
    let outcome := step.act.outcome ⟨s, doc⟩
    let taken :=
      if step = .commit ∧ outcome.1.isOk ∧ ¬ Record.sameList s.records taken then
        outcome.2.session.records
      else taken
    outcome.2.session.snapshot taken steps

/-- **The steps that succeed** make the session what it is. -/
theorem yieldsAll_run (s : Session) (steps : List (Document × Step)) :
    YieldsAll s (s.successes steps) (s.run steps) := by
  induction steps generalizing s with
  | nil => exact .nil s
  | cons entry steps ih =>
    obtain ⟨doc, step⟩ := entry
    rw [successes, run]
    rcases outcome_cases step ⟨s, doc⟩ with ⟨d, houtcome, hyields⟩ | ⟨e, houtcome⟩
    · rw [houtcome]
      exact .cons hyields (ih d.session)
    · rw [houtcome]
      exact ih s

theorem YieldsAll.place (h : YieldsAll s steps s') : s'.item = s.item ∧ s'.path = s.path := by
  induction h with
  | nil s => exact ⟨rfl, rfl⟩
  | cons h hs ih => exact ⟨ih.1.trans h.place.1, ih.2.trans h.place.2⟩

theorem YieldsAll.selected_lt (h : YieldsAll s steps s')
    (hs : ∀ i ∈ s.selected, i < s.records.length) : ∀ i ∈ s'.selected, i < s'.records.length := by
  induction h with
  | nil s => exact hs
  | cons h _ ih => exact ih (h.selected_lt hs)

/-- What counts as loaded is what was loaded or last written. -/
theorem loaded_run (s : Session) (steps : List (Document × Step)) :
    (s.run steps).loaded = s.snapshot s.loaded steps := by
  -- Along the run the two are equal, so a commit has something to write by both or by neither.
  induction steps generalizing s with
  | nil => rfl
  | cons entry steps ih =>
    obtain ⟨doc, step⟩ := entry
    rw [run, snapshot]
    rcases outcome_cases step ⟨s, doc⟩ with ⟨d, houtcome, hyields⟩ | ⟨e, houtcome⟩
    · rw [houtcome, ih d.session, hyields.loaded_eq]
      simp [Except.isOk, Except.toBool]
    · rw [houtcome, ih s]
      simp [Except.isOk, Except.toBool]

/-! ## From the start -/

theorem selected_lt_of_start {doc : Document} {item : Text} {path : ItemPath}
    (h : start doc item path = .ok s) : ∀ i ∈ s.selected, i < s.records.length := by
  obtain ⟨rs, -, rfl⟩ := exists_of_start h
  cases rs with
  | nil => simp
  | cons r rs => simp

/-- The selection is a record where it is inside the records. -/
theorem selection?_eq {i : ℕ} (hi : s.selected = some i) (hlt : i < s.records.length) :
    s.selection? = some (i, s.records[i]) := by
  simp [selection?, hi, hlt]

/-- A commit of the records that were loaded or last written does nothing at all. -/
theorem outcome_commit_of_sameList (h : Record.sameList s.records s.loaded) (doc : Document) :
    Step.commit.act.outcome ⟨s, doc⟩ = (.ok (), ⟨s, doc⟩) := by
  refine (Step.performs_act .commit).outcome_of_ok ?_
  rw [Step.after, commit_of_clean h]
  rfl

/-- **What holds after every run of a session.** It is open where it was opened. A selection is one
of its records. The records are the loaded ones as the steps that succeeded have changed them. A
commit does nothing unless they differ from those that were loaded or last written. -/
theorem run_sound {doc : Document} {item : Text} {path : ItemPath} {s₀ : Session}
    (h : start doc item path = .ok s₀) (steps : List (Document × Step)) :
    let s := s₀.run steps
    (s.item = item ∧ s.path = path ∧ s.kind = path.kind) ∧
    (∀ i, s.selected = some i →
      ∃ hi : i < s.records.length, s.selection? = some (i, s.records[i])) ∧
    (doc.load item path = .ok s₀.records ∧ YieldsAll s₀ (s₀.successes steps) s) ∧
    ∀ other, Record.sameList s.records (s₀.snapshot s₀.records steps) →
      Step.commit.act.outcome ⟨s, other⟩ = (.ok (), ⟨s, other⟩) := by
  intro s
  have hyields := yieldsAll_run s₀ steps
  have hselected := hyields.selected_lt (selected_lt_of_start h)
  obtain ⟨rs, hrs, rfl⟩ := exists_of_start h
  obtain ⟨hitem, hpath⟩ := hyields.place
  refine ⟨⟨hitem, hpath, congrArg ItemPath.kind hpath⟩, fun i hi => ?_, ⟨hrs, hyields⟩, ?_⟩
  · exact ⟨hselected i hi, selection?_eq hi (hselected i hi)⟩
  · intro other hsame
    rw [← loaded_run] at hsame
    exact outcome_commit_of_sameList hsame other

/-- A record is added behind a kept one and the kept one is deleted, with a selection in between
that fails. Then the records are written, and there is nothing left to write. -/
theorem run_sound_delete :
    let path : ItemPath := ⟨["needcondition".toList]⟩
    let doc : Document := ⟨[("gem".toList, .mapping [("needcondition".toList, .string ['a'])])]⟩
    let s₀ : Session := ⟨"gem".toList, path, [.kept ['a']], [.kept ['a']], some 0⟩
    let steps : List (Document × Step) := [(doc, .revise .add), (doc, .revise (.select 7)),
      (doc, .revise (.delete 0)), (doc, .commit)]
    let written : Record :=
      { condition := .money .zero, rawText := "vars(\"%cmi_user_balance%\") >= 0".toList }
    start doc "gem".toList path = .ok s₀ ∧
      YieldsAll s₀ [.revise .add, .revise (.delete 0), .commit] (s₀.run steps) ∧
      (s₀.run steps).records = [written] ∧
      Step.commit.act.outcome ⟨s₀.run steps, doc⟩ = (.ok (), ⟨s₀.run steps, doc⟩) := by
  intro path doc s₀ steps written
  have hstart : start doc "gem".toList path = .ok s₀ := by decide +kernel
  obtain ⟨-, -, ⟨-, hyields⟩, hcommit⟩ := run_sound hstart steps
  have hsuccesses : s₀.successes steps = [.revise .add, .revise (.delete 0), .commit] := by
    decide +kernel
  have hrecords : (s₀.run steps).records = [written] := by decide +kernel
  have hsnapshot : s₀.snapshot s₀.records steps = [written] := by decide +kernel
  refine ⟨hstart, hsuccesses ▸ hyields, hrecords, hcommit doc ?_⟩
  rw [hrecords, hsnapshot]
  decide +kernel

end ItemConditions.Session
