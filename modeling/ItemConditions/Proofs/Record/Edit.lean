import ItemConditions.Proofs.Condition
import ItemConditions.Record.Edit

/-!
# Field edits, in any order

A condition is what some form fields make of a kind. An edit of a field changes that field and no
other, whether the kind has it or not; so behind a change of kind only the last value of each field
counts, and a form that gives all fields makes the same condition of every record.

## Main definitions

* `Edit.name?`, `Edit.key?`, `Edit.amount?`, `Edit.useName?`: the value that an edit gives a field
* `Edit.last`: the last value that edits give a field

## Main results

* `Condition.exists_ofFields`: every condition is made of form fields
* `Edit.condition_apply`, `Edit.condition_foldl_apply`: what one edit and what a run of edits makes
  of the fields of a condition
* `Edit.rawText_foldl_apply`: what a run of edits makes of the text of a kept record
* `Edit.fields_settle`: behind a change of kind the last value of each field counts
-/

namespace ItemConditions

namespace Condition

/-- Every condition is made of form fields. -/
theorem exists_ofFields (c : Condition) :
    ∃ name key amount useName, c = ofFields c.kind name key amount useName := by
  cases c with
  | money a => exact ⟨[], [], a, true, rfl⟩
  | level a => exact ⟨[], [], a, true, rfl⟩
  | playerMeta k a => exact ⟨[], k, a, true, rfl⟩
  | mythicMobs m => exact ⟨m.name, m.key, m.amount, m.useName, rfl⟩
  | neigeItems m => exact ⟨m.name, m.key, m.amount, m.useName, rfl⟩
  | unknown k a => exact ⟨[], k, a, true, rfl⟩
  | raw t => exact ⟨[], t, .zero, true, rfl⟩

section Setters

variable (kind : Kind) (name key : Text) (amount : Binary64) (useName : Bool)

@[simp] theorem setName_ofFields (n : Text) :
    (ofFields kind name key amount useName).setName n = ofFields kind n key amount useName := by
  cases kind <;> rfl

@[simp] theorem setKey_ofFields (k : Text) :
    (ofFields kind name key amount useName).setKey k = ofFields kind name k amount useName := by
  cases kind <;> rfl

@[simp] theorem setAmount_ofFields (a : Binary64) :
    (ofFields kind name key amount useName).setAmount a = ofFields kind name key a useName := by
  cases kind <;> rfl

@[simp] theorem setUseName_ofFields (u : Bool) :
    (ofFields kind name key amount useName).setUseName u = ofFields kind name key amount u := by
  cases kind <;> rfl

end Setters

end Condition

namespace Record

@[simp] theorem kind_setKind (k : Kind) (r : Record) : (r.setKind k).kind = k := by
  rw [setKind]
  split_ifs with h
  · exact h.symm
  · rw [kind, condition_withCondition, Condition.kind_ofFields]

/-- Kept text is its own key, so a new key is a new condition like any other. -/
@[simp] theorem condition_setKey (k : Text) (r : Record) :
    (r.setKey k).condition = r.condition.setKey k := by
  rw [setKey]
  split
  · next t ht => rw [ht, Condition.setKey]
  · rfl

@[simp] theorem comparator_setKey (k : Text) (r : Record) :
    (r.setKey k).comparator = r.comparator := by
  rw [setKey]
  split <;> rfl

@[simp] theorem isAction_setKey (k : Text) (r : Record) : (r.setKey k).isAction = r.isAction := by
  rw [setKey]
  split <;> rfl

theorem rawText_setKey {k : Text} {r : Record} (h : r.kind = .raw) :
    (r.setKey k).rawText = k := by
  obtain ⟨c, t, b, o⟩ := r
  cases c <;> first | rfl | simp [kind, Condition.kind] at h

end Record

namespace Edit

/-! ## The fields that edits set -/

/-- The name that an edit gives. -/
def name? : Edit → Option Text
  | name n => some n
  | _ => none

/-- The key that an edit gives. -/
def key? : Edit → Option Text
  | key k => some k
  | _ => none

/-- The amount that an edit gives. -/
def amount? : Edit → Option Binary64
  | amount a => some a
  | _ => none

/-- The way of matching that an edit gives. -/
def useName? : Edit → Option Bool
  | useName u => some u
  | _ => none

/-- **The last value that edits give a field.** -/
def last {α : Type} (field : Edit → Option α) (edits : List Edit) : Option α :=
  (edits.filterMap field).getLast?

/-- A later value of a field takes the place of an earlier one. -/
theorem getD_last_cons {α : Type} (field : Edit → Option α) (e : Edit) (edits : List Edit)
    (value : α) :
    (last field (e :: edits)).getD value = (last field edits).getD ((field e).getD value) := by
  unfold last
  cases he : field e with
  | none => rw [List.filterMap_cons_none he, Option.getD_none]
  | some v =>
    rw [List.filterMap_cons_some he, List.getLast?_cons]
    rfl

/-! ## One edit -/

variable {r : Record} {e : Edit} {edits : List Edit} {kind : Kind} {name key : Text}
  {amount : Binary64} {useName : Bool}

/-- **An edit of a field** changes that field of the condition and no other. -/
theorem condition_apply (hkind : ∀ k, e ≠ .kind k)
    (h : r.condition = .ofFields kind name key amount useName) :
    (e.apply r).condition = .ofFields kind (e.name?.getD name) (e.key?.getD key)
      (e.amount?.getD amount) (e.useName?.getD useName) := by
  cases e with
  | kind k => exact absurd rfl (hkind k)
  | _ => simp [apply, Record.setName, Record.setAmount, Record.setUseName, h, name?, key?, amount?,
      useName?]

/-- The text of a kept record changes with its key. -/
theorem rawText_apply (hkind : ∀ k, e ≠ .kind k) (h : r.kind = .raw) :
    (e.apply r).rawText = e.key?.getD r.rawText := by
  cases e with
  | kind k => exact absurd rfl (hkind k)
  | key k => exact Record.rawText_setKey h
  | _ => rfl

theorem comparator_apply (r : Record) (e : Edit) : (e.apply r).comparator = r.comparator := by
  cases e <;> simp [apply, Record.setName, Record.setAmount, Record.setUseName]

theorem isAction_apply (hmark : ∀ b, e ≠ .isAction b) : (e.apply r).isAction = r.isAction := by
  cases e with
  | isAction b => exact absurd rfl (hmark b)
  | _ => simp [apply, Record.setName, Record.setAmount, Record.setUseName]

/-! ## A run of edits -/

/-- **A run of edits of fields** leaves the last value of each. -/
theorem condition_foldl_apply (hkind : ∀ k, Edit.kind k ∉ edits)
    (h : r.condition = .ofFields kind name key amount useName) :
    (edits.foldl Edit.apply r).condition = .ofFields kind ((last name? edits).getD name)
      ((last key? edits).getD key) ((last amount? edits).getD amount)
      ((last useName? edits).getD useName) := by
  induction edits generalizing r name key amount useName with
  | nil => exact h
  | cons e edits ih =>
    simp only [List.mem_cons, not_or] at hkind
    rw [List.foldl_cons, ih (fun k => (hkind k).2)
      (condition_apply (fun k => Ne.symm (hkind k).1) h)]
    simp only [getD_last_cons]

theorem rawText_foldl_apply (hkind : ∀ k, Edit.kind k ∉ edits) (h : r.kind = .raw) :
    (edits.foldl Edit.apply r).rawText = (last key? edits).getD r.rawText := by
  induction edits generalizing r with
  | nil => rfl
  | cons e edits ih =>
    simp only [List.mem_cons, not_or] at hkind
    have hfirst : ∀ k, e ≠ .kind k := fun k => Ne.symm (hkind k).1
    have hraw : (e.apply r).kind = .raw := by
      obtain ⟨name, key, amount, useName, hfields⟩ := r.condition.exists_ofFields
      rw [Record.kind, condition_apply hfirst hfields, Condition.kind_ofFields]
      exact h
    rw [getD_last_cons, ← rawText_apply hfirst h]
    exact ih (fun k => (hkind k).2) hraw

theorem comparator_foldl_apply (r : Record) (edits : List Edit) :
    (edits.foldl Edit.apply r).comparator = r.comparator := by
  induction edits generalizing r with
  | nil => rfl
  | cons e edits ih => rw [List.foldl_cons, ih, comparator_apply]

theorem isAction_foldl_apply (hmark : ∀ b, Edit.isAction b ∉ edits) :
    (edits.foldl Edit.apply r).isAction = r.isAction := by
  induction edits generalizing r with
  | nil => rfl
  | cons e edits ih =>
    simp only [List.mem_cons, not_or] at hmark
    rw [List.foldl_cons, ih fun b => (hmark b).2, isAction_apply fun b => Ne.symm (hmark b).1]

/-! ## Behind a change of kind -/

/-- Behind a change of kind the fields that were carried across do not matter any more. -/
theorem condition_foldl_kind (r : Record) (before : List Edit) (kind : Kind) (after : List Edit)
    (hkind : ∀ k, Edit.kind k ∉ after) (hname : last name? after = some name)
    (hkey : last key? after = some key) (hamount : last amount? after = some amount)
    (huseName : last useName? after = some useName) :
    ((before ++ .kind kind :: after).foldl Edit.apply r).condition
      = .ofFields kind name key amount useName := by
  rw [List.foldl_append, List.foldl_cons]
  set s : Record := Edit.apply (before.foldl Edit.apply r) (.kind kind)
  have hs : s.condition.kind = kind := Record.kind_setKind kind _
  obtain ⟨name', key', amount', useName', hfields⟩ := s.condition.exists_ofFields
  rw [hs] at hfields
  rw [condition_foldl_apply hkind hfields, hname, hkey, hamount, huseName]
  simp only [Option.getD_some]

/-- A form that gives all fields makes the same condition of every record. -/
theorem condition_apply_changes (r : Record) (kind : Kind) (name key : Text) (amount : Binary64)
    (useName : Bool) :
    (Changes.apply ⟨some kind, some name, some key, some amount, some useName⟩ r).condition
      = .ofFields kind name key amount useName :=
  condition_foldl_kind r [] kind [.name name, .key key, .amount amount, .useName useName] (by simp)
    rfl rfl rfl rfl

/-- **Behind a change of kind the last value of each field counts**, whatever the record was and
whatever came before: the condition is the one of these form fields. No edit of a field touches the
comparator or the mark of a command, and the text of a kept record is its key. So a form that gives
all fields makes the same condition of every record. -/
theorem fields_settle (r : Record) (before : List Edit) (kind : Kind) (after : List Edit)
    (hkind : ∀ k, Edit.kind k ∉ after) (hname : last name? after = some name)
    (hkey : last key? after = some key) (hamount : last amount? after = some amount)
    (huseName : last useName? after = some useName) :
    let edits := before ++ .kind kind :: after
    let s := edits.foldl Edit.apply r
    s.condition = .ofFields kind name key amount useName ∧ s.comparator = r.comparator ∧
      ((∀ b, Edit.isAction b ∉ edits) → s.isAction = r.isAction) ∧
      (kind = .raw → s.rawText = key) ∧
      (Changes.apply ⟨some kind, some name, some key, some amount, some useName⟩ r).condition
        = .ofFields kind name key amount useName := by
  intro edits s
  refine ⟨condition_foldl_kind r before kind after hkind hname hkey hamount huseName,
    comparator_foldl_apply r edits, isAction_foldl_apply, ?_,
    condition_apply_changes r kind name key amount useName⟩
  rintro rfl
  have hraw : (Edit.apply (before.foldl Edit.apply r) (.kind .raw)).kind = .raw :=
    Record.kind_setKind .raw _
  have hs : s = after.foldl Edit.apply (Edit.apply (before.foldl Edit.apply r) (.kind .raw)) :=
    List.foldl_append
  rw [hs, rawText_foldl_apply hkind hraw, hkey, Option.getD_some]

/-- A command becomes kept text, whose key is given twice. -/
theorem fields_settle_kept :
    let edits : List Edit := [.amount .zero, .kind .raw, .key "a".toList, .useName false,
      .name "b".toList, .amount .zero, .key "say hi".toList]
    let s := edits.foldl Edit.apply (Record.command (.money .zero))
    last key? (edits.drop 2) = some "say hi".toList ∧
      s.condition = .raw "say hi".toList ∧ s.rawText = "say hi".toList ∧ s.isAction = true := by
  intro edits s
  obtain ⟨hcondition, -, hmark, hraw, -⟩ := fields_settle (Record.command (.money .zero))
    [.amount .zero] .raw (edits.drop 2) (by simp [edits]) rfl rfl rfl rfl
  exact ⟨rfl, hcondition, hraw rfl, hmark (by simp [edits])⟩

end Edit

end ItemConditions
