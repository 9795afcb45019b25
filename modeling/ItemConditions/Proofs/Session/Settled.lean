import ItemConditions.Proofs.Session.Reopening

/-!
# Commits that are made again

A commit takes the written texts into the records. A record that has its text is written the same
again, since the text is looked at only where nothing else can be written; so a second commit finds
the document as it has to be. It does not even write, unless an amount is not a number: such a
record never counts as the one that was loaded. What is read from a document has no such amount, so
a session that was only looked through has nothing to commit.

## Main definitions

* `Session.Step.edits`: the steps that change records

## Main results

* `Record.sameList_self_iff`: lists of records that are the same as themselves
* `Session.encode_map_refreshed`: what was committed is written the same again
* `Document.commit_again`: a document that was written to is left alone
* `Session.run_of_not_edits`: without edits nothing changes
* `Session.commit_settles`: commits without edits, and commits made twice
-/

namespace ItemConditions

/-! ## Records that are the same as themselves -/

namespace Condition

theorem amount_ne_nan_of_same {c d : Condition} (h : c.same d) : c.amount ≠ .nan := by
  have hzero : Binary64.zero ≠ .nan := by decide
  intro hnan
  cases c <;> cases d <;>
    simp_all [same, ItemMatch.same, amount, Binary64.equals, Binary64.isNaN]

end Condition

namespace Record

theorem same_self {r : Record} (h : r.amount ≠ .nan) : r.same r := by
  simp [same, Condition.same_self h]

theorem amount_ne_nan_of_same {r s : Record} (h : r.same s) : r.amount ≠ .nan := by
  simp only [same, Bool.and_eq_true] at h
  exact Condition.amount_ne_nan_of_same h.1.1.1

theorem amount_ne_nan_of_sameList {rs ss : List Record} (h : sameList rs ss) :
    ∀ r ∈ rs, r.amount ≠ .nan := by
  induction rs generalizing ss with
  | nil => simp
  | cons r rs ih =>
    cases ss with
    | nil => simp [sameList] at h
    | cons s ss =>
      rw [sameList, Bool.and_eq_true] at h
      exact List.forall_mem_cons.mpr ⟨amount_ne_nan_of_same h.1, ih h.2⟩

/-- A list of records is the same as itself unless an amount is not a number. -/
theorem sameList_self_iff {rs : List Record} : sameList rs rs ↔ ∀ r ∈ rs, r.amount ≠ .nan := by
  refine ⟨amount_ne_nan_of_sameList, fun h => ?_⟩
  induction rs with
  | nil => rfl
  | cons r rs ih =>
    obtain ⟨hr, hrs⟩ := List.forall_mem_cons.mp h
    rw [sameList, same_self hr, ih hrs, Bool.and_self]

end Record

/-- What is read from a slot has numbers for its amounts. -/
theorem Slot.amount_ne_nan_of_read? {kind : SlotKind} {present : Option Value} {rs : List Record}
    (h : read? kind present = some rs) : ∀ r ∈ rs, r.amount ≠ .nan := by
  intro r hr
  rcases read?_cases h r hr with ⟨-, t, ht⟩ | ⟨-, line, rfl⟩
  · exact (Script.isWritable_of_mem_read ht).2
  · rcases Command.condition_read_cases line with hrecognized | hraw
    · exact hrecognized.amount_ne_nan
    · rw [Record.amount, hraw]
      intro hzero
      cases hzero

/-! ## Records that are written again -/

namespace Clause

/-- A record that takes the text that is written for it is written the same. -/
theorem write_rawText (r : Record) : write { r with rawText := write r } = write r := by
  cases hexpression : Placeholder.expression? r.condition with
  | none =>
    cases hc : r.condition with
    | raw t =>
      rw [write_of_raw hc]
      exact write_of_raw rfl
    | _ => simp [hc, Placeholder.expression?] at hexpression
  | some expression =>
    cases hq : quote? expression with
    | none => exact write_eq_rawText hexpression hq
    | some q =>
      rw [write_eq_compose hexpression hq]
      exact write_eq_compose hexpression hq

end Clause

namespace Session

variable (kind : SlotKind)

@[simp] theorem encodeRecord_refreshed (r : Record) :
    Slot.encodeRecord kind (refreshed kind r) = Slot.encodeRecord kind r := by
  rw [refreshed]
  split_ifs
  · cases kind with
    | script => exact Clause.write_rawText r
    | commands => rfl
  · rfl

/-- A record takes the text that is written for it once. -/
@[simp] theorem refreshed_refreshed (r : Record) :
    refreshed kind (refreshed kind r) = refreshed kind r := by
  cases hr : r.isStructured with
  | false => simp [refreshed, hr]
  | true =>
    have hstructured : (refreshed kind r).isStructured := by
      rwa [Record.isStructured, condition_refreshed]
    rw [refreshed, if_pos hstructured, encodeRecord_refreshed, refreshed, if_pos hr]

/-- What was committed is written the same again. -/
theorem encode_map_refreshed (rs : List Record) :
    Slot.encode kind (rs.map (refreshed kind)) = Slot.encode kind rs := by
  have hrecords : (rs.map (refreshed kind)).map (Slot.encodeRecord kind)
      = rs.map (Slot.encodeRecord kind) := by
    rw [List.map_map]
    exact List.map_congr_left fun r _ => encodeRecord_refreshed kind r
  cases kind with
  | script => exact congrArg Encoded.script (Script.write?_congr hrecords)
  | commands => exact congrArg Encoded.commands hrecords

end Session

/-! ## Documents that are written to again -/

/-- An assignment that is made again changes nothing. -/
theorem Value.assign?_again {step : Text} {new v w : Value} (h : assign? step new v = some w) :
    assign? step new w = some w := by
  cases v with
  | mapping es =>
    obtain rfl := Option.some.inj h
    rw [assign?, Entries.insert_eq_self (by simp [Entries.get?_insert])]
  | sequence xs =>
    rw [assign?] at h
    split at h
    · next i hi =>
      split_ifs at h with hlt hlast
      · obtain rfl := Option.some.inj h
        simp [assign?, hi, hlt]
      · obtain rfl := Option.some.inj h
        simp [assign?, hi, hlast]
    · simp at h
  | _ => simp [assign?] at h

namespace Document

variable {doc after : Document} {item : Text} {path : ItemPath} {rs ss : List Record}
  {outcome : CommitOutcome}

/-- A value that is set again changes nothing. -/
theorem set_again {new : Value} (h : doc.set item path new = .ok after) :
    after.set item path new = .ok after := by
  obtain ⟨last, container, changed, hlast, hget, hassign, rfl⟩ := set_eq_ok_iff.mp h
  have hchanged := get?_replaceAt_self hget changed
  exact set_eq_ok_iff.mpr ⟨last, changed, changed, hlast, hchanged, Value.assign?_again hassign,
    (replaceAt_eq_self hchanged).symm⟩

theorem isSome_item?_of_set {new : Value} (h : doc.set item path new = .ok after) :
    (after.item? item).isSome := by
  obtain ⟨last, container, changed, -, hget, -, rfl⟩ := set_eq_ok_iff.mp h
  exact isSome_item? (get?_replaceAt_self hget changed)

/-- What a commit can do: write the records, or remove the field where there are none. -/
theorem commit_ok_cases (h : (doc.commit item path rs).answer = .ok (outcome, after)) :
    outcome = .written ∨ outcome = .removed ∧ rs = [] := by
  rw [commit] at h
  split_ifs at h
  split at h
  · split at h
    · obtain ⟨rfl, -⟩ := Prod.mk.inj (Except.ok.inj h)
      exact Or.inl rfl
    · simp at h
  · next hnone =>
    split at h
    · obtain ⟨rfl, -⟩ := Prod.mk.inj (Except.ok.inj h)
      refine Or.inr ⟨rfl, ?_⟩
      cases hkind : path.kind with
      | script =>
        rw [hkind, Slot.encode, Encoded.toValue?, Option.map_eq_none_iff] at hnone
        exact Script.write?_eq_none_iff.mp hnone
      | commands =>
        rw [hkind] at hnone
        simp [Slot.encode, Encoded.toValue?] at hnone
    · simp at h

/-- **A document that was written to** is left alone by records that are written the same. -/
theorem commit_again (h : (doc.commit item path rs).answer = .ok (.written, after))
    (hencode : Slot.encode path.kind ss = Slot.encode path.kind rs) :
    (after.commit item path ss).answer = .ok (.written, after) := by
  obtain ⟨new, hnew, hset⟩ := set_of_commit_written h
  have hitem : (after.item? item).isNone = false := by
    simpa using isSome_item?_of_set hset
  simp [commit, hitem, hencode, hnew, set_again hset]

end Document

/-! ## Sessions -/

namespace Session

variable {s s' : Session} {step : Step}

/-- **The steps that change records**; a selection, a commit and a spread do not. -/
def Step.edits : Step → Bool
  | .revise (.select _) | .commit | .spread => false
  | _ => true

theorem start_sameList {doc : Document} {item : Text} {path : ItemPath}
    (h : start doc item path = .ok s) : Record.sameList s.records s.loaded := by
  obtain ⟨rs, hload, rfl⟩ := exists_of_start h
  obtain ⟨-, hread⟩ := Document.load_eq_ok_iff.mp hload
  exact Record.sameList_self_iff.mpr (Slot.amount_ne_nan_of_read? hread)

/-- A step without an edit leaves the records that were loaded, where there are no others. -/
theorem Yields.eq_of_not_edits (h : Yields s step s') (hstep : step.edits = false)
    (hclean : Record.sameList s.records s.loaded) :
    s'.records = s.records ∧ s'.loaded = s.loaded := by
  cases h with
  | select hi => exact ⟨rfl, rfl⟩
  | clean _ => exact ⟨rfl, rfl⟩
  | written hdirty hrs => exact absurd hclean hdirty
  | spread => exact ⟨rfl, rfl⟩
  | _ => simp [Step.edits] at hstep

/-- **A run without edits** leaves the records that were loaded. -/
theorem run_of_not_edits {steps : List (Document × Step)}
    (hsteps : ∀ entry ∈ steps, entry.2.edits = false)
    (hclean : Record.sameList s.records s.loaded) :
    (s.run steps).records = s.records ∧ (s.run steps).loaded = s.loaded := by
  -- Along the run the records stay the loaded ones, so that no commit has anything to write.
  induction steps generalizing s with
  | nil => exact ⟨rfl, rfl⟩
  | cons entry steps ih =>
    obtain ⟨doc, step⟩ := entry
    obtain ⟨hstep, hsteps⟩ := List.forall_mem_cons.mp hsteps
    rw [run]
    rcases outcome_cases step ⟨s, doc⟩ with ⟨d, houtcome, hyields⟩ | ⟨e, houtcome⟩
    · rw [houtcome]
      obtain ⟨hrecords, hloaded⟩ := hyields.eq_of_not_edits hstep hclean
      obtain ⟨hrecords', hloaded'⟩ := ih hsteps (by rwa [hrecords, hloaded])
      exact ⟨hrecords'.trans hrecords, hloaded'.trans hloaded⟩
    · rw [houtcome]
      exact ih hsteps hclean

/-- After a commit that had something to write, the records are the ones that count as
loaded. -/
theorem commit_again_of_dirty {doc after : Document} {outcome : CommitOutcome}
    (hdirty : ¬ Record.sameList s.records s.loaded)
    (h : (s.commit doc).answer = .ok (outcome, s', after)) :
    s'.loaded = s'.records ∧ (¬ Record.sameList s'.records s'.records →
      (s'.commit after).answer = .ok (.written, s', after)) := by
  rcases commit_cases h with ⟨hclean, -⟩ | ⟨-, hcommit, hs'⟩
  · exact absurd hclean hdirty
  refine ⟨by rw [hs'], fun hnan => ?_⟩
  have hwritten : outcome = .written := by
    rcases Document.commit_ok_cases hcommit with hwritten | ⟨-, hrecords⟩
    · exact hwritten
    · rw [hs', hrecords] at hnan
      exact absurd rfl hnan
  rw [hwritten] at hcommit
  have hagain := Document.commit_again hcommit (encode_map_refreshed s.kind s.records)
  have hloaded : s'.loaded = s'.records := by rw [hs']
  have hsame : ¬ Record.sameList s'.records s'.loaded := by rwa [hloaded]
  rw [hs'] at hsame ⊢
  rw [commit_of_dirty hsame hagain]
  simp [kind, Function.comp_def]

/-- **Commits without edits, and commits made twice.** A session that was opened and then only
looked through, committed or spread has nothing to write, whatever stands at its path. And a commit
that is made again right away leaves the document and the session as they are. It does not even
write, and nothing is left to write before it, unless an amount is not a number. -/
theorem commit_settles :
    (∀ {doc : Document} {item : Text} {path : ItemPath} {s : Session},
      start doc item path = .ok s → ∀ steps : List (Document × Step),
        (∀ entry ∈ steps, entry.2.edits = false) → ∀ other : Document,
          ((s.run steps).commit other).answer = .ok (.unchanged, s.run steps, other)) ∧
    ∀ {s s' : Session} {doc after : Document} {outcome : CommitOutcome},
      (s.commit doc).answer = .ok (outcome, s', after) →
        (s'.commit after).answer = .ok
          (if ∀ r ∈ s'.records, r.amount ≠ .nan then .unchanged else .written, s', after) ∧
        (s'.isDirty = false ↔ ∀ r ∈ s'.records, r.amount ≠ .nan) := by
  constructor
  · intro doc item path s hstart steps hsteps other
    have hclean := start_sameList hstart
    obtain ⟨hrecords, hloaded⟩ := run_of_not_edits hsteps hclean
    refine commit_of_clean ?_ other
    rwa [hrecords, hloaded]
  · intro s s' doc after outcome h
    by_cases hclean : Record.sameList s'.records s'.loaded
    · have hnumbers := Record.amount_ne_nan_of_sameList hclean
      rw [if_pos hnumbers]
      refine ⟨commit_of_clean hclean after, fun _ => hnumbers, fun _ => ?_⟩
      rw [isDirty, hclean, Bool.not_true]
    · have hdirty : ¬ Record.sameList s.records s.loaded := by
        rcases commit_cases h with ⟨hsame, -, rfl, -⟩ | ⟨hdirty, -⟩
        · exact absurd hsame hclean
        · exact hdirty
      obtain ⟨hloaded, hagain⟩ := commit_again_of_dirty hdirty h
      rw [hloaded] at hclean
      have hnan : ¬ ∀ r ∈ s'.records, r.amount ≠ .nan := by
        rwa [← Record.sameList_self_iff]
      rw [if_neg hnan]
      refine ⟨hagain hclean, ?_⟩
      rw [isDirty, hloaded, ← Record.sameList_self_iff, Bool.not_eq_false']

/-- A truth value stands at the path, and is kept as it is. A balance that is not a number is
written over and over, always with the same text. -/
theorem commit_settles_nan :
    let path : ItemPath := ⟨["needcondition".toList]⟩
    let doc : Document := ⟨[("gem".toList, .mapping [("needcondition".toList, .bool true)])]⟩
    let s : Session := ⟨"gem".toList, path, [.kept "true".toList], [.kept "true".toList], some 0⟩
    start doc "gem".toList path = .ok s ∧
      (s.commit doc).answer = .ok (.unchanged, s, doc) ∧
      ∃ s' after,
        ((s.reviseAll [.edit 0 (.kind .money), .edit 0 (.amount .nan)]).commit doc).answer
          = .ok (.written, s', after) ∧
        (s'.commit after).answer = .ok (.written, s', after) ∧ s'.isDirty := by
  intro path doc s
  have hstart : start doc "gem".toList path = .ok s := by decide +kernel
  have hunchanged := commit_settles.1 hstart [] (by simp) doc
  obtain ⟨s', after, hcommit, hnan, hdirty⟩ : ∃ s' after,
      ((s.reviseAll [.edit 0 (.kind .money), .edit 0 (.amount .nan)]).commit doc).answer
        = .ok (.written, s', after) ∧ (¬ ∀ r ∈ s'.records, r.amount ≠ .nan) ∧
        s'.isDirty :=
    ⟨_, _, rfl, by decide +kernel, by decide +kernel⟩
  obtain ⟨hagain, -⟩ := commit_settles.2 hcommit
  rw [if_neg hnan] at hagain
  exact ⟨hstart, hunchanged, s', after, hcommit, hagain, hdirty⟩

end Session

end ItemConditions
