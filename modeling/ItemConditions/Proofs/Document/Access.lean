import ItemConditions.Document
import ItemConditions.Proofs.ItemPath.Pointer
import ItemConditions.Proofs.Value.Replacement

/-!
# Access to documents

A pointer to a place of an item is a walk from the top of the document whose first step is the
item's key. So access at a path is access at the end of a walk, and an assignment or a withdrawal
that succeeds replaces the container that the path's parent leads to.

## Main definitions

* `Document.replaceAt`: the document with the value at a path replaced

## Main results

* `Document.get?_eq`, `Document.get?_eq_bind`: reading is walking
* `Document.set_eq_ok_iff`, `Document.remove_eq_ok_iff`: when an access succeeds, and what it does
* `Document.get?_replaceAt_of_apart`: what a replacement leaves alone
-/

namespace ItemConditions

theorem ItemPath.segments_eq {path : ItemPath} {last : Text} (h : path.last? = some last) :
    path.segments = path.parent.segments ++ [last] :=
  (List.dropLast_append_getLast? last h).symm

namespace Document

variable {doc after : Document} {item : Text} {path : ItemPath} {part new : Value}

theorem toValue_injective : Function.Injective toValue := by
  rintro ⟨es⟩ ⟨fs⟩ h
  obtain rfl := Value.mapping.inj h
  rfl

/-! ## Reading -/

/-- Reading is walking from the top of the document. -/
theorem get?_eq (doc : Document) (item : Text) (path : ItemPath) :
    doc.get? item path = doc.toValue.at? (item :: path.segments) := by
  rw [get?, resolve?, ItemPath.tokens?_pointer, Option.bind_some]

/-- Reading is walking from the top of the item. -/
theorem get?_eq_bind (doc : Document) (item : Text) (path : ItemPath) :
    doc.get? item path = (doc.item? item).bind (Value.at? path.segments) := get?_eq doc item path

/-- The empty path leads to the item. -/
theorem get?_root (doc : Document) (item : Text) : doc.get? item ⟨[]⟩ = doc.item? item := by
  rw [get?_eq_bind]
  exact Option.bind_fun_some _

/-- The last segment leads from what the parent leads to. -/
theorem get?_of_last? {last : Text} (h : path.last? = some last) (doc : Document) (item : Text) :
    doc.get? item path = (doc.get? item path.parent).bind (Value.child? last) := by
  have hchild (v : Value) : v.at? [last] = v.child? last := by simp [Value.at?]
  rw [get?_eq, get?_eq, ItemPath.segments_eq h, ← List.cons_append, Value.at?_append]
  exact congrArg _ (funext hchild)

/-! ## Replacement -/

/-- **The document with the value at a path replaced.** -/
def replaceAt (doc : Document) (item : Text) (path : ItemPath) (new : Value) : Document :=
  match doc.item? item with
  | some tree => ⟨Entries.insert item (tree.replaceAt path.segments new) doc.entries⟩
  | none => doc

theorem toValue_replaceAt (doc : Document) (item : Text) (path : ItemPath) (new : Value) :
    (doc.replaceAt item path new).toValue = doc.toValue.replaceAt (item :: path.segments) new := by
  have hchild : doc.toValue.child? item = doc.item? item := rfl
  rw [replaceAt]
  cases htree : doc.item? item with
  | none => rw [Value.replaceAt_cons_of_none (hchild.trans htree)]
  | some tree =>
    rw [Value.replaceAt_cons (hchild.trans htree)]
    rfl

theorem item?_replaceAt {tree : Value} (h : doc.item? item = some tree) (path : ItemPath)
    (new : Value) :
    (doc.replaceAt item path new).item? item = some (tree.replaceAt path.segments new) := by
  rw [replaceAt, h, item?]
  simp [Entries.get?_insert]

theorem get?_replaceAt_append {q : ItemPath} {r : List Text} (h : doc.get? item path = some part)
    (hq : q.segments = path.segments ++ r) (new : Value) :
    (doc.replaceAt item path new).get? item q = new.at? r := by
  rw [get?_eq] at h ⊢
  rw [toValue_replaceAt, hq, ← List.cons_append, Value.at?_replaceAt_append h]

/-- The new value is what is read afterwards. -/
theorem get?_replaceAt_self (h : doc.get? item path = some part) (new : Value) :
    (doc.replaceAt item path new).get? item path = some new :=
  get?_replaceAt_append h (List.append_nil _).symm new

/-- **Away from the replaced place** all is as before. -/
theorem get?_replaceAt_of_apart {other : Text} {q : ItemPath}
    (h : item = other → Value.Apart path.segments q.segments) (doc : Document) (new : Value) :
    (doc.replaceAt item path new).get? other q = doc.get? other q := by
  rw [get?_eq, get?_eq, toValue_replaceAt,
    Value.at?_replaceAt_of_apart (Value.apart_cons_iff.mpr h)]

/-- A replacement by what is there changes nothing. -/
theorem replaceAt_eq_self (h : doc.get? item path = some part) :
    doc.replaceAt item path part = doc := by
  rw [get?_eq] at h
  exact toValue_injective (by rw [toValue_replaceAt, Value.replaceAt_eq_self h])

/-- Of two replacements at one place the second one counts. -/
theorem replaceAt_replaceAt (doc : Document) (item : Text) (path : ItemPath) (old new : Value) :
    (doc.replaceAt item path old).replaceAt item path new = doc.replaceAt item path new :=
  toValue_injective (by simp only [toValue_replaceAt, Value.replaceAt_replaceAt])

/-- Replacements at two places commute, if neither is inside the other. -/
theorem replaceAt_comm {other : Text} {q : ItemPath}
    (h : item = other → Value.Apart path.segments q.segments) (doc : Document) (new new' : Value) :
    (doc.replaceAt item path new).replaceAt other q new'
      = (doc.replaceAt other q new').replaceAt item path new :=
  toValue_injective (by
    simp only [toValue_replaceAt, Value.replaceAt_comm (Value.apart_cons_iff.mpr h)])

/-! ## Assignment and withdrawal -/

/-- A change at a path that succeeds is a replacement. -/
theorem update?_eq_some_iff {f : Value → Option Value} :
    doc.update? (path.pointer item) f = some after ↔
      ∃ part new, doc.get? item path = some part ∧ f part = some new ∧
        after = doc.replaceAt item path new := by
  rw [update?, ItemPath.tokens?_pointer, Option.bind_some]
  constructor
  · intro h
    split at h
    · next es hes =>
      obtain ⟨part, new, hpart, hnew, hes⟩ := Value.updateAt?_eq_some_iff.mp hes
      refine ⟨part, new, by rw [get?_eq, hpart], hnew, ?_⟩
      obtain rfl := Option.some.inj h
      exact toValue_injective (hes.trans (toValue_replaceAt ..).symm)
    · simp at h
  · rintro ⟨part, new, hpart, hnew, rfl⟩
    rw [get?_eq] at hpart
    rw [Value.updateAt?_eq_some_iff.mpr ⟨part, new, hpart, hnew, rfl⟩, ← toValue_replaceAt]
    rfl

/-- **When an assignment succeeds**, and what it does. -/
theorem set_eq_ok_iff : doc.set item path new = .ok after ↔
    ∃ last container changed, path.last? = some last ∧
      doc.get? item path.parent = some container ∧
      Value.assign? last new container = some changed ∧
      after = doc.replaceAt item path.parent changed := by
  rw [set]
  cases hlast : path.last? with
  | none => simp
  | some last =>
    simp only
    constructor
    · intro h
      split at h
      · next doc' hdoc' =>
        obtain rfl := Except.ok.inj h
        obtain ⟨container, changed, hget, hchanged, rfl⟩ := update?_eq_some_iff.mp hdoc'
        exact ⟨last, container, changed, rfl, hget, hchanged, rfl⟩
      · simp at h
    · rintro ⟨_, container, changed, ⟨⟩, hget, hchanged, rfl⟩
      rw [update?_eq_some_iff.mpr ⟨container, changed, hget, hchanged, rfl⟩]

/-- An assignment to a key that is there replaces the value at the path. -/
theorem set_eq_replaceAt {fields : List (Text × Value)} {last : Text}
    (hlast : path.last? = some last)
    (hparent : doc.get? item path.parent = some (.mapping fields))
    (hpart : Entries.get? last fields = some part) (new : Value) :
    doc.set item path new = .ok (doc.replaceAt item path new) := by
  refine set_eq_ok_iff.mpr ⟨last, _, _, hlast, hparent, rfl, toValue_injective ?_⟩
  have hchild : (Value.mapping fields).child? last = some part := hpart
  rw [get?_eq] at hparent
  rw [toValue_replaceAt, toValue_replaceAt, ItemPath.segments_eq hlast, ← List.cons_append,
    Value.replaceAt_append hparent, Value.replaceAt_cons hchild, Value.replaceAt_nil]
  rfl

/-- **When a withdrawal succeeds**, and what it does. -/
theorem remove_eq_ok_iff {removed? : Option Value} :
    doc.remove item path = .ok (removed?, after) ↔
      ∃ last container changed, path.last? = some last ∧
        doc.get? item path.parent = some container ∧
        Value.withdraw? last container = some (removed?, changed) ∧
        after = doc.replaceAt item path.parent changed := by
  rw [remove]
  cases hlast : path.last? with
  | none => simp
  | some last =>
    simp only
    constructor
    · intro h
      split at h
      · next removed changed doc' hremoved hdoc' =>
        obtain ⟨rfl, rfl⟩ := Prod.mk.inj (Except.ok.inj h)
        obtain ⟨container, hget, hwithdraw⟩ := Option.bind_eq_some_iff.mp hremoved
        obtain ⟨_, new, hget', hnew, rfl⟩ := update?_eq_some_iff.mp hdoc'
        obtain rfl := Option.some.inj (hget.symm.trans hget')
        rw [hwithdraw] at hnew
        obtain rfl := Option.some.inj hnew
        exact ⟨last, container, changed, rfl, hget, hwithdraw, rfl⟩
      · simp at h
    · rintro ⟨_, container, changed, ⟨⟩, hget, hwithdraw, rfl⟩
      have hupdate : doc.update? (path.parent.pointer item)
          (fun v => (Value.withdraw? last v).map Prod.snd)
            = some (doc.replaceAt item path.parent changed) :=
        update?_eq_some_iff.mpr ⟨container, changed, hget, by rw [hwithdraw]; rfl, rfl⟩
      rw [hget, Option.bind_some, hwithdraw, hupdate]

end Document

end ItemConditions
