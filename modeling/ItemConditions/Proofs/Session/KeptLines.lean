import ItemConditions.Proofs.Session.Reopening
import ItemConditions.Proofs.Spread.Targets

/-!
# Elements that no rule knows

A sequence of commands may hold elements that no rule knows. They are kept: a session in which only
the other records are changed writes them back in their places, and a spread writes them in front of
what it brings. What is written back is the line of the element. A text is its own line, so it stays
the same value; any other value comes back as the text of its JSON.

## Main definitions

* `Slot.IsKept`, `Slot.lineValue`: elements that no rule knows, and what is written back for them
* `Session.marked`: the part of a list that is marked
* `Session.SparesAll`: revisions that leave the marked records alone

## Main results

* `Session.marked_reviseAll`: revisions of other records leave the marked ones as they are
* `Session.kept_written_back`: elements that no rule knows stay where they were, as lines
-/

namespace ItemConditions

namespace Slot

/-- **An element that no rule knows.** -/
def IsKept (v : Value) : Bool := !(Command.read (lineOf v)).isStructured

/-- **The line of an element** as a value. -/
def lineValue (v : Value) : Value := .string (lineOf v)

theorem lineValue_eq_self_iff {v : Value} : lineValue v = v ↔ ∃ t, v = .string t := by
  cases v <;> simp [lineValue, lineOf]

/-- What is written back is what was there exactly if all elements that no rule knows are
texts. -/
theorem map_lineValue_eq_self_iff (xs : List Value) :
    (xs.filter IsKept).map lineValue = xs.filter IsKept ↔
      ∀ v ∈ xs, IsKept v → ∃ t, v = .string t := by
  have hself := List.map_inj_left (l := xs.filter IsKept) (f := lineValue) (g := id)
  rw [List.map_id] at hself
  simp only [hself, List.mem_filter, and_imp, id_eq, lineValue_eq_self_iff]

theorem string_keptLines (xs : List Value) :
    (Spread.keptLines xs).map Value.string = (xs.filter IsKept).map lineValue := by
  rw [Spread.keptLines, List.filter_map, List.map_map]
  rfl

/-- What is written back for the records of elements that no rule knows. -/
theorem write_read_kept (xs : List Value) :
    ((xs.filter IsKept).map fun v => Command.read (lineOf v)).map
        (fun r => Value.string (Command.write r)) = (xs.filter IsKept).map lineValue := by
  rw [List.map_map]
  refine List.map_congr_left fun v hv => ?_
  have hkept : (Command.read (lineOf v)).isStructured = false := by
    simpa [IsKept] using (List.mem_filter.mp hv).2
  exact congrArg Value.string (Command.write_read_of_not_isStructured hkept)

end Slot

namespace Document

variable {doc : Document} {item : Text} {path : ItemPath} {part : Value}

/-- A place of commands that is there can be written to: its last step is a key. -/
theorem set_of_commands (hkind : path.kind = .commands) (hpart : doc.get? item path = some part)
    (new : Value) : doc.set item path new = .ok (doc.replaceAt item path new) := by
  have hlast : ∃ last, path.last? = some last ∧ Value.index? last = none := by
    rw [ItemPath.kind] at hkind
    split_ifs at hkind with hkey
    rcases hkey with hkey | hkey
    · exact ⟨_, hkey, by decide⟩
    · exact ⟨_, hkey, by decide⟩
  obtain ⟨last, hlast, hindex⟩ := hlast
  rw [get?_of_last? hlast] at hpart
  obtain ⟨container, hcontainer, hchild⟩ := Option.bind_eq_some_iff.mp hpart
  cases container with
  | mapping fields => exact set_eq_replaceAt hlast hcontainer hchild new
  | sequence xs => simp [Value.child?, hindex] at hchild
  | _ => simp [Value.child?] at hchild

/-- Commands are written where something stands, however many they are. -/
theorem commit_of_commands (hkind : path.kind = .commands) (hpart : doc.get? item path = some part)
    (rs : List Record) : (doc.commit item path rs).answer
      = .ok (.written, doc.replaceAt item path (.ofTexts (rs.map Command.write))) := by
  obtain ⟨tree, htree⟩ := Option.isSome_iff_exists.mp (isSome_item? hpart)
  rw [commit, htree, hkind]
  simp [Slot.encode, Encoded.toValue?, set_of_commands hkind hpart]

/-- A spread of commands that writes to a sequence keeps the elements that no rule knows in
front of what it brings, as lines. -/
theorem get?_of_spread_commands {after : Document} {source : ItemPath} {rs : List Record}
    {report : SpreadReport} {xs : List Value} (hkeys : doc.HasDistinctKeys)
    (hsource : source.kind = .commands) (hpresent : doc.get? item path = some (.sequence xs))
    (hspread : (doc.spread item source rs).answer = .ok (report, after))
    (hpath : path ∈ report.updated) :
    after.get? item path = some (.sequence ((xs.filter Slot.IsKept).map Slot.lineValue
      ++ (rs.filter Record.isStructured).map fun r => .string (Command.write r))) := by
  obtain ⟨hss, tree, htree⟩ := Spread.exists_of_spread hspread
  have htreeKeys := hkeys.item? htree
  rw [Spread.spread_eq source htree htreeKeys rfl hss] at hspread
  obtain ⟨rfl, rfl⟩ := Prod.mk.inj (Except.ok.inj hspread)
  have htarget := Spread.mem_of_mem_map_changes hpath
  rw [(Spread.lists_targets htree htreeKeys source).get?_replaceAll source.kind _ htarget, hpresent,
    hsource, Spread.written?_sequence, Option.some_or, Value.ofTexts, List.map_append,
    Slot.string_keptLines, List.map_map]
  rfl

end Document

namespace Session

/-! ## Marks -/

section Marks

variable {α β : Type} {marks : List Bool} {i : ℕ}

/-- **The part of a list that is marked.** -/
def marked : List Bool → List α → List α
  | mark :: marks, x :: xs => if mark then x :: marked marks xs else marked marks xs
  | _, _ => []

theorem marked_map (f : α → β) (marks : List Bool) (xs : List α) :
    marked marks (xs.map f) = (marked marks xs).map f := by
  induction marks generalizing xs with
  | nil => rfl
  | cons mark marks ih =>
    cases xs with
    | nil => rfl
    | cons x xs => cases mark <;> simp [marked, ih]

/-- The elements with a property, by the marks of those that have it. -/
theorem marked_map_self (p : α → Bool) (xs : List α) : marked (xs.map p) xs = xs.filter p := by
  induction xs with
  | nil => rfl
  | cons x xs ih => rw [List.map_cons, marked, ih, List.filter_cons]

theorem marked_sublist (marks : List Bool) (xs : List α) : (marked marks xs).Sublist xs := by
  induction marks generalizing xs with
  | nil => exact List.nil_sublist xs
  | cons mark marks ih =>
    cases xs with
    | nil => exact List.nil_sublist []
    | cons x xs =>
      rw [marked]
      split
      · exact (ih xs).cons_cons x
      · exact (ih xs).cons x

theorem marked_append_false {xs : List α} (h : marks.length = xs.length) (x : α) :
    marked (marks ++ [false]) (xs ++ [x]) = marked marks xs := by
  induction marks generalizing xs with
  | nil =>
    obtain rfl := List.length_eq_zero_iff.mp h.symm
    rfl
  | cons mark marks ih =>
    cases xs with
    | nil => simp at h
    | cons y xs =>
      have h' : marks.length = xs.length := by simpa using h
      simp only [List.cons_append, marked, ih h']

theorem marked_set (h : marks[i]? ≠ some true) (xs : List α) (x : α) :
    marked marks (xs.set i x) = marked marks xs := by
  induction marks generalizing xs i with
  | nil => rfl
  | cons mark marks ih =>
    cases xs with
    | nil => rfl
    | cons y xs =>
      cases i with
      | zero =>
        obtain rfl : mark = false := by simpa using h
        rfl
      | succ i => simp only [List.set_cons_succ, marked, ih (by simpa using h)]

theorem marked_eraseIdx (h : marks[i]? ≠ some true) (xs : List α) :
    marked (marks.eraseIdx i) (xs.eraseIdx i) = marked marks xs := by
  induction marks generalizing xs i with
  | nil => rfl
  | cons mark marks ih =>
    cases xs with
    | nil => cases i <;> simp [marked]
    | cons y xs =>
      cases i with
      | zero =>
        obtain rfl : mark = false := by simpa using h
        rfl
      | succ i => simp only [List.eraseIdx_cons_succ, marked, ih (by simpa using h)]

end Marks

/-! ## Revisions of other records -/

/-- The marks of the records after a revision; what is added is not marked. -/
def Revision.marks (marks : List Bool) : Revision → List Bool
  | .add => marks ++ [false]
  | .delete i => marks.eraseIdx i
  | _ => marks

/-- A revision leaves the marked records alone: it neither deletes nor changes one. -/
def Revision.Spares (marks : List Bool) : Revision → Prop
  | .delete i | .update i _ | .edit i _ => marks[i]? ≠ some true
  | _ => True

/-- The marks of the records after some revisions. -/
def marksAll (marks : List Bool) (revisions : List Revision) : List Bool :=
  revisions.foldl Revision.marks marks

/-- Revisions leave the marked records alone, wherever these have moved to. -/
def SparesAll : List Bool → List Revision → Prop
  | _, [] => True
  | marks, revision :: revisions =>
    revision.Spares marks ∧ SparesAll (revision.marks marks) revisions

variable {s s' : Session} {marks : List Bool} {revision : Revision} {revisions : List Revision}

/-- A revision that fails leaves the marks as they are. -/
theorem marks_of_error {e : EditError} (h : s.revise revision = .error e)
    (hlength : marks.length = s.records.length) : revision.marks marks = marks := by
  cases revision with
  | add => simp [revise] at h
  | delete i =>
    refine List.eraseIdx_of_length_le ?_
    by_contra hlt
    have hi : i < s.records.length := by omega
    simp [revise, Session.delete, record, hi, Except.map] at h
  | _ => rfl

/-- A revision of another record leaves the marked ones as they are. -/
theorem marked_of_yields (h : Yields s (.revise revision) s') (hspares : revision.Spares marks)
    (hlength : marks.length = s.records.length) :
    (revision.marks marks).length = s'.records.length ∧
      marked (revision.marks marks) s'.records = marked marks s.records := by
  cases h with
  | select hi => exact ⟨hlength, rfl⟩
  | add =>
    refine ⟨?_, marked_append_false hlength _⟩
    simp [Revision.marks, hlength]
  | delete hi =>
    refine ⟨?_, marked_eraseIdx hspares _⟩
    rw [Revision.marks, List.length_eraseIdx, List.length_eraseIdx, hlength]
  | update hi new =>
    refine ⟨?_, marked_set hspares _ _⟩
    rw [List.length_set]
    exact hlength
  | edit hi e =>
    refine ⟨?_, marked_set hspares _ _⟩
    rw [List.length_set]
    exact hlength

/-- **Revisions of other records** leave the marked ones as they are, and so the place of the
session. -/
theorem marked_reviseAll (hspares : SparesAll marks revisions)
    (hlength : marks.length = s.records.length) :
    marked (marksAll marks revisions) (s.reviseAll revisions).records = marked marks s.records := by
  -- There is a mark for each record all along, so what fails on the records leaves the marks too.
  induction revisions generalizing s marks with
  | nil => rfl
  | cons revision revisions ih =>
    obtain ⟨hspare, hspares⟩ := hspares
    rw [marksAll, List.foldl_cons, reviseAll, List.foldl_cons]
    cases hrevise : s.revise revision with
    | error e =>
      rw [revision.performs_act.outcome_of_error hrevise]
      have hmarks := marks_of_error hrevise hlength
      rw [hmarks] at hspares ⊢
      exact ih hspares hlength
    | ok s' =>
      rw [revision.performs_act.outcome_of_ok hrevise]
      obtain ⟨hlength', hmarked⟩ := marked_of_yields (yields_of_revise hrevise) hspare hlength
      rw [← hmarked]
      exact ih hspares hlength'

/-- A session in which only other records are changed can be committed, and writes the elements
that no rule knows back in their places, as lines. -/
theorem commit_of_sparesAll {doc : Document} {item : Text} {path : ItemPath} {xs : List Value}
    (hkind : path.kind = .commands) (hpresent : doc.get? item path = some (.sequence xs))
    (hstart : start doc item path = .ok s)
    (hspares : SparesAll (xs.map Slot.IsKept) revisions) :
    ∃ outcome s' after, ((s.reviseAll revisions).commit doc).answer = .ok (outcome, s', after) ∧
      ((outcome = .unchanged ∧ after = doc) ∨ (outcome = .written ∧ ∃ ys,
        after.get? item path = some (.sequence ys) ∧
        marked (marksAll (xs.map Slot.IsKept) revisions) ys
          = (xs.filter Slot.IsKept).map Slot.lineValue ∧
        ((xs.filter Slot.IsKept).map Slot.lineValue).Sublist ys)) := by
  have hrecords : s.records = xs.map fun v => Command.read (Slot.lineOf v) := by
    obtain ⟨rs, hload, rfl⟩ := exists_of_start hstart
    obtain ⟨-, hread⟩ := Document.load_eq_ok_iff.mp hload
    rw [hpresent, hkind] at hread
    exact (Option.some.inj hread).symm
  have hmarked := marked_reviseAll hspares (s := s) (by simp [hrecords])
  obtain ⟨hitem, hpath⟩ := place_reviseAll_of_start hstart revisions
  -- From here on it only matters what the marked records are, not how the others came about.
  generalize s.reviseAll revisions = t at hmarked hitem hpath ⊢
  by_cases hclean : Record.sameList t.records t.loaded
  · exact ⟨.unchanged, t, doc, commit_of_clean hclean doc, Or.inl ⟨rfl, rfl⟩⟩
  subst hitem hpath
  have hcommit := Document.commit_of_commands hkind hpresent t.records
  have hafter := Document.get?_replaceAt_self hpresent (.ofTexts (t.records.map Command.write))
  have hwritten : marked (marksAll (xs.map Slot.IsKept) revisions)
      ((t.records.map Command.write).map .string) = (xs.filter Slot.IsKept).map Slot.lineValue := by
    rw [List.map_map, marked_map, hmarked, hrecords, marked_map, marked_map_self]
    exact Slot.write_read_kept xs
  refine ⟨_, _, _, commit_of_dirty hclean hcommit, Or.inr ⟨rfl, _, hafter, hwritten, ?_⟩⟩
  rw [← hwritten]
  exact marked_sublist _ _

/-- **Elements that no rule knows stay where they were, as lines.** Of a sequence of commands, a
session in which only the other records are changed writes them back in their places, unless there
is nothing to write, and a spread that writes to the sequence keeps them in front of what it brings.
They stay the same values exactly if they are texts. -/
theorem kept_written_back {doc : Document} {item : Text} {path : ItemPath} {xs : List Value}
    (hkeys : doc.HasDistinctKeys) (hkind : path.kind = .commands)
    (hpresent : doc.get? item path = some (.sequence xs)) :
    (∃ s, start doc item path = .ok s ∧
      ∀ revisions, SparesAll (xs.map Slot.IsKept) revisions →
        ∃ outcome s' after,
          ((s.reviseAll revisions).commit doc).answer = .ok (outcome, s', after) ∧
          ((outcome = .unchanged ∧ after = doc) ∨ (outcome = .written ∧ ∃ ys,
            after.get? item path = some (.sequence ys) ∧
            marked (marksAll (xs.map Slot.IsKept) revisions) ys
              = (xs.filter Slot.IsKept).map Slot.lineValue ∧
            ((xs.filter Slot.IsKept).map Slot.lineValue).Sublist ys))) ∧
    (∀ source rs report after, source.kind = .commands →
      (doc.spread item source rs).answer = .ok (report, after) → path ∈ report.updated →
        after.get? item path = some (.sequence ((xs.filter Slot.IsKept).map Slot.lineValue
          ++ (rs.filter Record.isStructured).map fun r => .string (Command.write r)))) ∧
    ((xs.filter Slot.IsKept).map Slot.lineValue = xs.filter Slot.IsKept ↔
      ∀ v ∈ xs, Slot.IsKept v → ∃ t, v = .string t) := by
  have hload : doc.load item path = .ok (xs.map fun x => Command.read (Slot.lineOf x)) := by
    rw [Document.load_eq_ok_iff, hpresent, hkind]
    exact ⟨Document.isSome_item? hpresent, rfl⟩
  refine ⟨⟨_, by rw [start, hload]; rfl, fun revisions hspares => ?_⟩, ?_,
    Slot.map_lineValue_eq_self_iff xs⟩
  · exact commit_of_sparesAll hkind hpresent (by rw [start, hload]; rfl) hspares
  · intro source rs report after hsource hspread hpath
    exact Document.get?_of_spread_commands hkeys hsource hpresent hspread hpath

/-- A line that no rule knows stays in front of an amount that is changed, and of what a spread
brings. -/
theorem kept_written_back_say :
    let path (index : ℕ) : ItemPath := Discovery.entryPath ['a'] index "actions".toList
    let take (n : ℕ) : Record := .command (.money (.ofNat n))
    let xs : List Value := [.string "say".toList, .string (Command.write (take 3))]
    let entry (v : Value) : Value := .mapping [("actions".toList, v)]
    let doc : Document := ⟨[("gem".toList, .mapping [("actions".toList, .mapping [(['a'],
      .sequence [entry (.sequence [.null]), entry (.sequence xs)])])])]⟩
    doc.HasDistinctKeys ∧ doc.get? "gem".toList (path 1) = some (.sequence xs) ∧
      (∃ s s' after ys, start doc "gem".toList (path 1) = .ok s ∧
        ((s.reviseAll [.edit 1 (.amount (.ofNat 5))]).commit doc).answer
          = .ok (.written, s', after) ∧
        after.get? "gem".toList (path 1) = some (.sequence ys) ∧
        marked [true, false] ys = [.string "say".toList]) ∧
      ∃ report after, (doc.spread "gem".toList (path 0) [take 5]).answer = .ok (report, after) ∧
        after.get? "gem".toList (path 1)
          = some (.sequence [.string "say".toList, .string (Command.write (take 5))]) := by
  intro path take xs entry doc
  have hkeys : doc.HasDistinctKeys := by
    simp [doc, entry, xs, Document.HasDistinctKeys, Document.toValue, Entries.keys]
  have hpresent : doc.get? "gem".toList (path 1) = some (.sequence xs) := rfl
  have hmarks : xs.map Slot.IsKept = [true, false] := by decide +kernel
  have hlines : (xs.filter Slot.IsKept).map Slot.lineValue = [.string "say".toList] := rfl
  obtain ⟨⟨s, hstart, hcommit⟩, hspread, -⟩ := kept_written_back hkeys rfl hpresent
  rw [hmarks, hlines] at hcommit
  rw [hlines] at hspread
  refine ⟨hkeys, hpresent, ?_, _, _, rfl, hspread (path 0) [take 5] _ _ rfl rfl ?_⟩
  · have hs : s = ⟨"gem".toList, path 1, [{ Record.kept "say".toList with isAction := true },
        { take 3 with rawText := Command.write (take 3) }],
        [{ Record.kept "say".toList with isAction := true },
        { take 3 with rawText := Command.write (take 3) }], some 0⟩ :=
      (Except.ok.inj hstart).symm
    have hspares : SparesAll [true, false] [.edit 1 (.amount (.ofNat 5))] :=
      ⟨by simp [Revision.Spares], trivial⟩
    obtain ⟨outcome, s', after, hanswer, hcases⟩ := hcommit _ hspares
    have houtcome : ((s.reviseAll [.edit 1 (.amount (.ofNat 5))]).commit doc).answer.map Prod.fst
        = .ok .written := by
      rw [hs]
      rfl
    rw [hanswer] at houtcome
    obtain rfl : outcome = .written := Except.ok.inj houtcome
    obtain ⟨habsurd, -⟩ | ⟨-, ys, hys, hmarked, -⟩ := hcases
    · simp at habsurd
    · exact ⟨s, s', after, ys, hstart, hanswer, hys, hmarked⟩
  · exact List.mem_singleton.mpr rfl

/-- A number among the lines is no command that a rule knows. When a record is added, it is written
back as a text. -/
theorem kept_written_back_number :
    let path : ItemPath := ⟨["actions".toList]⟩
    let seven : Value := .number (.whole 7)
    let doc : Document := ⟨[("gem".toList, .mapping [("actions".toList, .sequence [seven])])]⟩
    Slot.IsKept seven ∧ ∃ s s' after, start doc "gem".toList path = .ok s ∧
      ((s.reviseAll [.add]).commit doc).answer = .ok (.written, s', after) ∧
      after.get? "gem".toList path = some (.ofTexts
        [['7'], "console: cmi money take %player_name% 0".toList]) := by
  intro path seven doc
  exact ⟨by decide +kernel, _, _, _, rfl, rfl, rfl⟩

end Session

end ItemConditions
