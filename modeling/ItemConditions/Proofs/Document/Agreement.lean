import ItemConditions.Commit
import ItemConditions.Proofs.Document.Access

/-!
# Reading and writing at one place

A walk takes strict indices only, while the last step of an assignment or a withdrawal is lenient.
So `+0` and `00` are written to and not read, and a value can be overwritten that was never seen.
Where the last step is strict, or leads into a mapping, all accesses at a path act on one place.

## Main definitions

* `Value.slot?`, `Document.slot?`: what an assignment would replace, and a withdrawal take
* `Value.IsStrictStep`, `Document.IsStrict`: the last step is read as it is written

## Main results

* `Document.accesses_agree_iff`: exactly then a path is read where it is written
-/

namespace ItemConditions

namespace Value

/-- **The part that an assignment would replace**, and that a withdrawal would take. -/
def slot? (step : Text) : Value → Option Value
  | .mapping es => Entries.get? step es
  | .sequence xs => (position? step).bind (xs[·]?)
  | _ => none

/-- **A step that is read as it is written**: into a sequence it is a strict index. -/
def IsStrictStep (step : Text) : Value → Prop
  | .sequence _ => (index? step).isSome
  | _ => True

variable {v w new : Value} {step : Text} {removed? : Option Value}

/-- What a walk finds at a lenient index. -/
theorem child?_sequence_of_position? {i : ℕ} (h : position? step = some i) (xs : List Value) :
    child? step (.sequence xs) = if (index? step).isSome then xs[i]? else none := by
  rw [child?]
  cases hindex : index? step with
  | none => rfl
  | some j =>
    have hposition := position?_eq_of_index? hindex
    rw [h] at hposition
    split_ifs at hposition
    obtain rfl := Option.some.inj hposition
    rfl

/-- What an assignment has written is found if its step is strict. -/
theorem child?_of_assign? (h : assign? step new v = some w) :
    w.child? step = some new ↔ v.IsStrictStep step := by
  cases v with
  | mapping es =>
    obtain rfl := Option.some.inj h
    simp [child?, Entries.get?_insert, IsStrictStep]
  | sequence xs =>
    rw [assign?] at h
    split at h
    · next i hi =>
      have hwritten : ∃ ys, w = .sequence ys ∧ ys[i]? = some new := by
        split_ifs at h with hlt heq
        · exact ⟨_, (Option.some.inj h).symm, by simp [hlt]⟩
        · exact ⟨_, (Option.some.inj h).symm, by simp [heq]⟩
      obtain ⟨ys, rfl, hy⟩ := hwritten
      rw [child?_sequence_of_position? hi, hy, IsStrictStep]
      split_ifs with hindex <;> simp [hindex]
    · simp at h
  | _ => exact absurd h (by simp [assign?])

theorem position?_isSome_of_assign? (h : assign? step new v = some w) :
    ∀ xs, v = .sequence xs → (position? step).isSome := by
  rintro xs rfl
  rw [assign?] at h
  split at h
  · next i hi => rw [hi, Option.isSome_some]
  · simp at h

theorem position?_isSome_of_withdraw? (h : withdraw? step v = some (removed?, w)) :
    ∀ xs, v = .sequence xs → (position? step).isSome := by
  rintro xs rfl
  rw [withdraw?] at h
  split at h
  · next i hi => rw [hi, Option.isSome_some]
  · simp at h

/-- What a withdrawal takes. -/
theorem eq_slot?_of_withdraw? (h : withdraw? step v = some (removed?, w)) :
    removed? = v.slot? step := by
  cases v with
  | mapping es => exact (Prod.mk.inj (Option.some.inj h)).1.symm
  | sequence xs =>
    rw [withdraw?] at h
    split at h
    · next i hi =>
      rw [slot?, hi]
      exact (Prod.mk.inj (Option.some.inj h)).1.symm
    · simp at h
  | _ => exact absurd h (by simp [withdraw?])

/-- A slot is what a walk finds if the step is strict or nothing stands there. -/
theorem slot?_eq_child?_iff (h : ∀ xs, v = .sequence xs → (position? step).isSome) :
    v.slot? step = v.child? step ↔ v.IsStrictStep step ∨ v.slot? step = none := by
  cases v with
  | sequence xs =>
    obtain ⟨i, hi⟩ := Option.isSome_iff_exists.mp (h xs rfl)
    rw [child?_sequence_of_position? hi, slot?, hi, Option.bind_some, IsStrictStep]
    split_ifs with hindex <;> simp [hindex]
  | _ => simp [slot?, child?, IsStrictStep]

end Value

namespace Document

/-- **What an assignment at a path would replace**, and a withdrawal take. -/
def slot? (doc : Document) (item : Text) (path : ItemPath) : Option Value :=
  path.last?.bind fun last => (doc.get? item path.parent).bind (Value.slot? last)

/-- A path is read where it is written: its last step leads into a mapping, or is a strict
index. -/
def IsStrict (doc : Document) (item : Text) (path : ItemPath) : Prop :=
  ∀ last container, path.last? = some last → doc.get? item path.parent = some container →
    container.IsStrictStep last

variable {doc after : Document} {item : Text} {path : ItemPath} {last : Text}
  {container changed new : Value} {removed? : Option Value}

theorem slot?_eq (hlast : path.last? = some last)
    (hcontainer : doc.get? item path.parent = some container) :
    doc.slot? item path = container.slot? last := by
  rw [slot?, hlast, Option.bind_some, hcontainer, Option.bind_some]

theorem get?_eq_child? (hlast : path.last? = some last)
    (hcontainer : doc.get? item path.parent = some container) :
    doc.get? item path = container.child? last := by
  rw [get?_of_last? hlast, hcontainer, Option.bind_some]

theorem isStrict_iff (hlast : path.last? = some last)
    (hcontainer : doc.get? item path.parent = some container) :
    doc.IsStrict item path ↔ container.IsStrictStep last := by
  constructor
  · intro h
    exact h last container hlast hcontainer
  · rintro h _ _ hlast' hcontainer'
    obtain rfl := Option.some.inj (hlast.symm.trans hlast')
    obtain rfl := Option.some.inj (hcontainer.symm.trans hcontainer')
    exact h

/-- What was assigned is read exactly at a strict path. -/
theorem get?_of_set (h : doc.set item path new = .ok after) :
    after.get? item path = some new ↔ doc.IsStrict item path := by
  obtain ⟨last, container, changed, hlast, hcontainer, hassign, rfl⟩ := set_eq_ok_iff.mp h
  rw [isStrict_iff hlast hcontainer, ← Value.child?_of_assign? hassign,
    get?_eq_child? hlast (get?_replaceAt_self hcontainer changed)]

theorem slot?_eq_get?_of_set (h : doc.set item path new = .ok after) :
    doc.slot? item path = doc.get? item path ↔
      doc.IsStrict item path ∨ doc.slot? item path = none := by
  obtain ⟨last, container, changed, hlast, hcontainer, hassign, rfl⟩ := set_eq_ok_iff.mp h
  rw [isStrict_iff hlast hcontainer, slot?_eq hlast hcontainer, get?_eq_child? hlast hcontainer,
    Value.slot?_eq_child?_iff (Value.position?_isSome_of_assign? hassign)]

/-- What was withdrawn is what stood in the slot, and that was read at a strict path. -/
theorem slot?_eq_get?_of_remove (h : doc.remove item path = .ok (removed?, after)) :
    removed? = doc.slot? item path ∧ (doc.slot? item path = doc.get? item path ↔
      doc.IsStrict item path ∨ doc.slot? item path = none) := by
  obtain ⟨last, container, changed, hlast, hcontainer, hwithdraw, rfl⟩ := remove_eq_ok_iff.mp h
  rw [isStrict_iff hlast hcontainer, slot?_eq hlast hcontainer, get?_eq_child? hlast hcontainer,
    Value.slot?_eq_child?_iff (Value.position?_isSome_of_withdraw? hwithdraw)]
  exact ⟨Value.eq_slot?_of_withdraw? hwithdraw, Iff.rfl⟩

/-- A commit that succeeds assigns what is written for the records, or withdraws. -/
theorem set_or_remove_of_commit {rs : List Record} {outcome : CommitOutcome}
    (h : (doc.commit item path rs).answer = .ok (outcome, after)) :
    (∃ new, (Slot.encode path.kind rs).toValue? = some new ∧ doc.set item path new = .ok after) ∨
      ∃ removed?, doc.remove item path = .ok (removed?, after) := by
  rw [commit] at h
  split_ifs at h
  split at h
  · next new hnew =>
    split at h
    · next doc' hset =>
      obtain ⟨-, rfl⟩ := Prod.mk.inj (Except.ok.inj h)
      exact Or.inl ⟨new, hnew, hset⟩
    · simp at h
  · split at h
    · next removed doc' hremove =>
      obtain ⟨-, rfl⟩ := Prod.mk.inj (Except.ok.inj h)
      exact Or.inr ⟨removed, hremove⟩
    · simp at h

/-- **Exactly a strict path is read where it is written.** What an assignment has written there is
read back; what a withdrawal answers was read before, and so was what a commit replaces or takes.
At any other path a value that stands in the slot is not seen. -/
theorem accesses_agree_iff (doc : Document) (item : Text) (path : ItemPath) :
    (∀ new after, doc.set item path new = .ok after →
      (after.get? item path = some new ↔ doc.IsStrict item path)) ∧
    (∀ removed? after, doc.remove item path = .ok (removed?, after) →
      (removed? = doc.get? item path ↔ doc.IsStrict item path ∨ removed? = none)) ∧
    ∀ rs outcome after, (doc.commit item path rs).answer = .ok (outcome, after) →
      (doc.slot? item path = doc.get? item path ↔
        doc.IsStrict item path ∨ doc.slot? item path = none) := by
  refine ⟨fun new after h => get?_of_set h, fun removed? after h => ?_,
    fun rs outcome after h => ?_⟩
  · obtain ⟨rfl, hiff⟩ := slot?_eq_get?_of_remove h
    exact hiff
  · rcases set_or_remove_of_commit h with ⟨new, -, hset⟩ | ⟨removed?, hremove⟩
    · exact slot?_eq_get?_of_set hset
    · exact (slot?_eq_get?_of_remove hremove).2

/-- Through `+0` the first line is replaced and taken, but never seen. -/
theorem plus_zero_unread :
    let doc : Document := ⟨[("gem".toList, .mapping [("lore".toList,
      .sequence [.string "old".toList])])]⟩
    let path : ItemPath := ⟨["lore".toList, "+0".toList]⟩
    doc.get? "gem".toList path = none ∧ doc.load "gem".toList path = .ok [] ∧
      (∃ after, doc.set "gem".toList path (.string "new".toList) = .ok after ∧
        after.get? "gem".toList path = none) ∧
      (∃ after, doc.remove "gem".toList path = .ok (some (.string "old".toList), after)) ∧
      ∃ after, (doc.commit "gem".toList path [.kept "new".toList]).answer = .ok (.written, after) ∧
        after.get? "gem".toList ⟨["lore".toList, "0".toList]⟩
          = some (.string "js: new".toList) := by
  refine ⟨rfl, rfl, ⟨_, rfl, rfl⟩, ⟨_, rfl⟩, _, rfl, rfl⟩

end Document

end ItemConditions
