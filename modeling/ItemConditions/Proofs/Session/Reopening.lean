import ItemConditions.Proofs.Command.RoundTrip
import ItemConditions.Proofs.Script.RoundTrip
import ItemConditions.Proofs.Session.Run

/-!
# Opening a session again

A session that was committed is compared with a new one at the same path. A commit takes the written
texts into its records, and leaves the comparators as they were read; the new session reads all of
them as `>=`, since nothing else is ever written. Conditions, texts and marks of the two agree, as
long as the amounts are ones that can be written.

## Main definitions

* `Record.ReadAs`: a record as it is read again
* `Slot.IsWritable`, `Slot.Carries`, `Slot.reread`: the two codecs by the kind of slot
* `Slot.Holds`: a record as a slot holds it
* `Session.Revision.IsPlain`: revisions that change amounts only

## Main results

* `Slot.read?_of_encode`: what is written is read back
* `Slot.read?_cases`: where the records of a slot come from
* `Session.holds_reviseAll`: plain revisions leave records that can be written
* `Session.start_of_commit`: a session on what was committed
-/

namespace ItemConditions

/-- **A record as it is read again**: nothing but the comparator can be another, since that is
always read as `>=`. -/
structure Record.ReadAs (r read : Record) : Prop where
  condition : read.condition.same r.condition
  rawText : read.rawText = r.rawText
  isAction : read.isAction = r.isAction
  comparator : read.comparator = .ge

theorem Record.ReadAs.same_iff {r read : Record} (h : r.ReadAs read) :
    read.same r ↔ r.comparator = .ge := by
  rw [Record.same, h.condition, h.rawText, h.isAction, h.comparator]
  simp only [beq_self_eq_true, Bool.true_and, beq_iff_eq]
  exact eq_comm

/-- Lists that are read again are the same exactly if all comparators were `>=`. -/
theorem Record.sameList_iff_of_readAs {rs read : List Record} (h : List.Forall₂ ReadAs rs read) :
    sameList read rs ↔ ∀ r ∈ rs, r.comparator = .ge := by
  induction h with
  | nil => simp [sameList]
  | cons hr _ ih => rw [sameList, Bool.and_eq_true, hr.same_iff, ih, List.forall_mem_cons]

/-! ## What a slot holds -/

namespace Slot

variable {kind : SlotKind} {r : Record} {rs : List Record} {new : Value}

/-- **Apart from the amount, the condition can be written.** -/
def IsWritable : SlotKind → Condition → Prop
  | .script => Clause.IsWritable
  | .commands => Command.IsWritable

/-- **The amount can be written**: in a script a finite one, in a command one that it carries. -/
def Carries : SlotKind → Condition → Prop
  | .script => fun c => c.amount.isFinite
  | .commands => Command.Carries

/-- The record that is read from what is written for a record. -/
def reread : SlotKind → Record → Record
  | .script => Clause.reread
  | .commands => Command.reread

/-- A record as a slot holds it: it can be written, apart from its amount, and is what is read,
apart from the condition and its text. -/
structure Holds (kind : SlotKind) (r : Record) : Prop where
  writable : IsWritable kind r.condition
  isAction : r.isAction = decide (kind = .commands)
  kept : ∀ t, r.condition = .raw t → r.rawText = t ∧ r.comparator = .ge
  comparator : kind = .commands → r.comparator = .ge

theorem isWritable_setAmount (c : Condition) (a : Binary64) :
    IsWritable kind (c.setAmount a) ↔ IsWritable kind c := by
  cases kind with
  | script => exact Clause.isWritable_setAmount c a
  | commands => exact Command.isWritable_setAmount c a

/-- What is written is read back. -/
theorem read?_of_encode (h : ∀ r ∈ rs, IsWritable kind r.condition)
    (hnew : (encode kind rs).toValue? = some new) :
    read? kind (some new) = some (rs.map (reread kind)) := by
  cases kind with
  | script =>
    obtain ⟨t, ht, rfl⟩ := Option.map_eq_some_iff.mp hnew
    exact congrArg some (Script.read_of_write? h ht)
  | commands =>
    obtain rfl := Option.some.inj hnew
    refine congrArg some ?_
    simp only [List.map_map]
    exact List.map_congr_left fun r hr => Command.read_write (h r hr)

theorem holds_clause {t : Text} (ht : Clause.IsPiece t) : Holds .script (Clause.read t) where
  writable := (Clause.isWritable_read ht).1
  isAction := by
    rw [Clause.read]
    split <;> rfl
  kept u hu := by
    have hkept : (Clause.read t).isStructured = false := by
      rw [Record.isStructured, hu]
      rfl
    rw [Clause.read_eq_kept hkept] at hu ⊢
    exact ⟨Condition.raw.inj hu, rfl⟩
  comparator h := by simp at h

theorem holds_command (line : Text) : Holds .commands (Command.read line) where
  writable := Command.isWritable_read line
  isAction := by rw [Command.read_eq]; rfl
  kept u hu := by
    rcases Command.condition_read_cases line with h | h
    · rw [hu] at h
      exact h.elim
    · obtain rfl := Condition.raw.inj (h.symm.trans hu)
      rw [Command.read_eq]
      exact ⟨rfl, rfl⟩
  comparator _ := by rw [Command.read_eq]

/-- **Where records come from**: the clauses of a script, or the lines of a sequence. -/
theorem read?_cases {present : Option Value} (h : read? kind present = some rs) :
    ∀ r ∈ rs, (kind = .script ∧ ∃ t, r ∈ Script.read t) ∨
      kind = .commands ∧ ∃ line, r = Command.read line := by
  unfold read? at h
  split at h
  · obtain rfl := Option.some.inj h
    simp
  · obtain rfl := Option.some.inj h
    simp
  · split at h
    · obtain rfl := Option.some.inj h
      exact fun r hr => Or.inl ⟨rfl, _, hr⟩
    · obtain rfl := Option.some.inj h
      exact fun r hr => Or.inl ⟨rfl, _, hr⟩
    · obtain rfl := Option.some.inj h
      exact fun r hr => Or.inl ⟨rfl, _, hr⟩
    · obtain rfl := Option.some.inj h
      intro r hr
      obtain ⟨v, -, rfl⟩ := List.mem_map.mp hr
      exact Or.inr ⟨rfl, lineOf v, rfl⟩
    · simp at h

/-- What is read from a slot is what it holds. -/
theorem holds_of_read? {present : Option Value} (h : read? kind present = some rs) :
    ∀ r ∈ rs, Holds kind r := by
  intro r hr
  rcases read?_cases h r hr with ⟨rfl, t, ht⟩ | ⟨rfl, line, rfl⟩
  · rw [Script.read_eq_map_clauses] at ht
    obtain ⟨clause, hclause, rfl⟩ := List.mem_map.mp ht
    exact holds_clause (Script.isPiece_of_mem_clauses hclause)
  · exact holds_command line

/-- The record that is added can be written. -/
theorem holds_fresh (kind : SlotKind) : Holds kind (Session.fresh kind) where
  writable := by
    cases kind with
    | script =>
      refine ⟨trivial, ?_⟩
      rintro e ⟨⟩
      decide
    | commands => trivial
  isAction := rfl
  kept t ht := by simp [Session.fresh] at ht
  comparator _ := rfl

theorem Holds.setAmount (h : Holds kind r) (a : Binary64) : Holds kind (r.setAmount a) where
  writable := (isWritable_setAmount r.condition a).mpr h.writable
  isAction := h.isAction
  kept t ht := by
    refine h.kept t ?_
    cases hc : r.condition <;> simp_all [Record.setAmount, Condition.setAmount]
  comparator := h.comparator

/-- The text of a record that was committed is the one that is written for it. -/
theorem Holds.rawText_refreshed (h : Holds kind r) :
    (Session.refreshed kind r).rawText = encodeRecord kind r := by
  rw [Session.refreshed]
  split_ifs with hstructured
  · rfl
  · cases hc : r.condition with
    | raw t =>
      rw [(h.kept t hc).1]
      cases kind with
      | script => exact (Clause.write_of_raw hc).symm
      | commands => rw [encodeRecord, Command.write, hc]
    | _ => simp [Record.isStructured, hc, Condition.isStructured] at hstructured

/-- A condition whose amount can be written is read back. -/
theorem Holds.same_reread (h : Holds kind r) (hcarries : Carries kind r.condition) :
    (reread kind r).condition.same r.condition := by
  cases kind with
  | script =>
    have hcondition : (reread .script r).condition = r.condition := if_pos hcarries
    rw [hcondition]
    exact Condition.same_self (Binary64.ne_nan_of_isFinite hcarries)
  | commands => exact (Command.same_restated_iff _ h.writable).mpr hcarries

/-- What is read for a record that was committed agrees with it, but for the comparator. -/
theorem Holds.readAs_refreshed (h : Holds kind r) (hcarries : Carries kind r.condition) :
    (Session.refreshed kind r).ReadAs (reread kind r) where
  condition := by
    rw [Session.condition_refreshed]
    exact h.same_reread hcarries
  rawText := by
    rw [h.rawText_refreshed]
    cases kind <;> rfl
  isAction := by
    rw [Session.isAction_refreshed, h.isAction]
    cases kind <;> rfl
  comparator := by cases kind <;> rfl

end Slot

/-! ## Sessions -/

namespace Document

variable {doc after : Document} {item : Text} {path : ItemPath} {rs : List Record}

/-- A commit that has written something has assigned it. -/
theorem set_of_commit_written
    (h : (doc.commit item path rs).answer = .ok (.written, after)) :
    ∃ new, (Slot.encode path.kind rs).toValue? = some new ∧
      doc.set item path new = .ok after := by
  rw [commit] at h
  split_ifs at h
  split at h
  · next new hnew =>
    split at h
    · next doc' hset =>
      obtain ⟨-, rfl⟩ := Prod.mk.inj (Except.ok.inj h)
      exact ⟨new, hnew, hset⟩
    · simp at h
  · split at h <;> simp at h

/-- What a load answers: the records that are read at the path of an item. -/
theorem load_eq_ok_iff : doc.load item path = .ok rs ↔
    (doc.item? item).isSome ∧ Slot.read? path.kind (doc.get? item path) = some rs := by
  rw [load]
  simp only
  cases doc.item? item with
  | none => simp
  | some tree =>
    cases hread : Slot.read? path.kind (doc.get? item path) with
    | none => simp
    | some rs' => simp

theorem isSome_item? {v : Value} (h : doc.get? item path = some v) :
    (doc.item? item).isSome := by
  rw [get?_eq_bind] at h
  obtain ⟨tree, htree, -⟩ := Option.bind_eq_some_iff.mp h
  rw [htree, Option.isSome_some]

end Document

namespace Session

variable {s s' : Session} {revisions : List Revision}

/-- A plain revision moves the selection, adds or deletes a record, or sets an amount. -/
def Revision.IsPlain : Revision → Prop
  | .select _ | .add | .delete _ | .edit _ (.amount _) => True
  | _ => False

/-- One plain revision leaves records as the slot holds them. -/
theorem Yields.holds {revision : Revision} (h : Yields s (.revise revision) s')
    (hplain : revision.IsPlain) (hs : ∀ r ∈ s.records, Slot.Holds s.kind r) :
    ∀ r ∈ s'.records, Slot.Holds s'.kind r := by
  cases h with
  | select hi => exact hs
  | add =>
    intro r hr
    rcases List.mem_append.mp hr with hr | hr
    · exact hs r hr
    · rw [List.mem_singleton.mp hr]
      exact Slot.holds_fresh s.kind
  | delete hi => exact fun r hr => hs r (List.mem_of_mem_eraseIdx hr)
  | update hi new => exact hplain.elim
  | edit hi e =>
    cases e with
    | amount a =>
      intro r hr
      rcases List.mem_or_eq_of_mem_set hr with hr | rfl
      · exact hs r hr
      · exact (hs _ (List.getElem_mem hi)).setAmount a
    | _ => exact hplain.elim

/-- **Plain revisions** of what a slot holds leave records as the slot holds them. -/
theorem holds_reviseAll {doc : Document} {item : Text} {path : ItemPath}
    (hstart : start doc item path = .ok s) (hplain : ∀ revision ∈ revisions, revision.IsPlain) :
    ∀ r ∈ (s.reviseAll revisions).records, Slot.Holds (s.reviseAll revisions).kind r := by
  obtain ⟨rs, hload, rfl⟩ := exists_of_start hstart
  obtain ⟨-, hread⟩ := Document.load_eq_ok_iff.mp hload
  refine reviseAll_induction (P := fun t => ∀ r ∈ t.records, Slot.Holds t.kind r)
    (Slot.holds_of_read? hread) ?_
  intro revision hrevision t t' hyields ht
  exact hyields.holds (hplain revision hrevision) ht

/-- **A session on what was committed.** After plain revisions that leave amounts that can be
written, a commit that writes at a path that is read where it is written can be opened again. The
records of the new session have the conditions, texts and marks of those that were committed, and
comparators `>=`. So the two sessions show the same exactly if the one that was committed has no
other comparator; one on commands has none. -/
theorem start_of_commit {doc after : Document} {item : Text} {path : ItemPath} {s s' : Session}
    {revisions : List Revision} (hstart : start doc item path = .ok s)
    (hplain : ∀ revision ∈ revisions, revision.IsPlain)
    (hcarries : ∀ r ∈ (s.reviseAll revisions).records, Slot.Carries path.kind r.condition)
    (hstrict : doc.IsStrict item path)
    (hcommit : ((s.reviseAll revisions).commit doc).answer = .ok (.written, s', after)) :
    ∃ t, start after item path = .ok t ∧
      List.Forall₂ Record.ReadAs s'.records t.records ∧
      (Record.sameList t.records s'.records ↔ ∀ r ∈ s'.records, r.comparator = .ge) ∧
      (path.kind = .commands → ∀ r ∈ s'.records, r.comparator = .ge) := by
  have hholds := holds_reviseAll hstart hplain
  obtain ⟨hitem, hpath⟩ := place_reviseAll_of_start hstart revisions
  rw [kind, hpath] at hholds
  generalize s.reviseAll revisions = t at *
  rcases commit_cases hcommit with ⟨-, habsurd, -⟩ | ⟨-, hanswer, hs'⟩
  · simp at habsurd
  rw [hitem, hpath] at hanswer
  obtain ⟨new, hnew, hset⟩ := Document.set_of_commit_written hanswer
  have hget := (Document.get?_of_set hset).mpr hstrict
  have hread := Slot.read?_of_encode (fun r hr => (hholds r hr).writable) hnew
  rw [← hget] at hread
  have hload := Document.load_eq_ok_iff.mpr ⟨Document.isSome_item? hget, hread⟩
  have hrecords : s'.records = t.records.map (refreshed path.kind) := by rw [hs', kind, hpath]
  have hagree : List.Forall₂ Record.ReadAs s'.records (t.records.map (Slot.reread path.kind)) := by
    rw [hrecords, List.forall₂_map_left_iff, List.forall₂_map_right_iff, List.forall₂_same]
    exact fun r hr => (hholds r hr).readAs_refreshed (hcarries r hr)
  refine ⟨_, by rw [start, hload]; rfl, hagree, Record.sameList_iff_of_readAs hagree, ?_⟩
  intro hkind r' hr'
  rw [hrecords] at hr'
  obtain ⟨r, hr, rfl⟩ := List.mem_map.mp hr'
  rw [comparator_refreshed]
  exact (hholds r hr).comparator hkind

/-- A record is added behind kept text and gets an amount. What was committed is shown again. -/
theorem start_of_commit_add :
    let path : ItemPath := ⟨["needcondition".toList]⟩
    let doc : Document := ⟨[("gem".toList, .mapping [("needcondition".toList, .string ['a'])])]⟩
    let s : Session := ⟨"gem".toList, path, [.kept ['a']], [.kept ['a']], some 0⟩
    let revisions : List Revision := [.add, .edit 1 (.amount (.ofNat 6))]
    start doc "gem".toList path = .ok s ∧
      ∃ s' after, ((s.reviseAll revisions).commit doc).answer = .ok (.written, s', after) ∧
        s'.records = [.kept ['a'], { condition := .money (.ofNat 6)
                                     rawText := "vars(\"%cmi_user_balance%\") >= 6".toList }] ∧
        ∃ t, start after "gem".toList path = .ok t ∧ Record.sameList t.records s'.records := by
  intro path doc s revisions
  have hstart : start doc "gem".toList path = .ok s := by decide +kernel
  have hplain : ∀ revision ∈ revisions, revision.IsPlain := by simp [revisions, Revision.IsPlain]
  have hcarries : ∀ r ∈ (s.reviseAll revisions).records, r.condition.amount.isFinite := by
    decide +kernel
  have hparent : doc.get? "gem".toList path.parent
      = some (.mapping [("needcondition".toList, .string ['a'])]) := rfl
  have hstrict : doc.IsStrict "gem".toList path := (Document.isStrict_iff rfl hparent).mpr trivial
  obtain ⟨s', after, hcommit, hrecords⟩ : ∃ s' after,
      ((s.reviseAll revisions).commit doc).answer = .ok (.written, s', after) ∧
      s'.records = [.kept ['a'], { condition := .money (.ofNat 6)
                                   rawText := "vars(\"%cmi_user_balance%\") >= 6".toList }] :=
    ⟨_, _, rfl, by decide +kernel⟩
  obtain ⟨t, ht, -, hsame, -⟩ := start_of_commit hstart hplain hcarries hstrict hcommit
  refine ⟨hstart, s', after, hcommit, hrecords, t, ht, hsame.mpr ?_⟩
  simp [hrecords, Record.kept]

/-- A comparator of another kind stays in the session that was committed, and is `>=` in the
document and in the session that is opened again. -/
theorem start_of_commit_comparator :
    let path : ItemPath := ⟨["needcondition".toList]⟩
    let doc : Document := ⟨[("gem".toList, .mapping [("needcondition".toList,
      .string "vars(\"%player_level%\") <= 5".toList)])]⟩
    let r (c : Comparator) : Record := { condition := .level (.ofNat 6)
                                         rawText := "vars(\"%player_level%\") >= 6".toList
                                         comparator := c }
    ∃ s s' after t, start doc "gem".toList path = .ok s ∧
      ((s.reviseAll [.edit 0 (.amount (.ofNat 6))]).commit doc).answer
        = .ok (.written, s', after) ∧
      s'.records = [r .le] ∧ (r .le).amount.isFinite ∧
      start after "gem".toList path = .ok t ∧ t.records = [r .ge] := by
  intro path doc r
  refine ⟨_, _, _, _, rfl, rfl, ?_, ?_, rfl, ?_⟩
  · decide +kernel
  · decide +kernel
  · decide +kernel

end Session

end ItemConditions
