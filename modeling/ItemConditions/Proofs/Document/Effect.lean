import ItemConditions.Proofs.Document.Changes
import ItemConditions.Proofs.Document.InPlace
import ItemConditions.Proofs.Value.Container

/-!
# The effect of an assignment and of a withdrawal

Both act on one container, the value that the path without its last segment leads to. They succeed
exactly if there is such a container and the last segment is a step into it. Then this container is
exchanged for what the step makes of it, and the rest of the document is framed. In all other cases
nothing is changed.

## Main definitions

* `Document.SetEffect`, `Document.RemoveEffect`: what the two do at a path

## Main results

* `Document.set_eq`, `Document.remove_eq`: both by the container that they act on
* `Document.set_and_remove_exact`: the exact effect of both, and how they undo each other
-/

namespace ItemConditions

theorem ItemPath.last?_and_parent {path : ItemPath} {parent : List Text} {last : Text}
    (h : path.segments = parent ++ [last]) : path.last? = some last ∧ path.parent = ⟨parent⟩ := by
  simp [last?, ItemPath.parent, h]

namespace Document

variable {doc after : Document} {item : Text} {path : ItemPath} {parent : List Text} {last : Text}
  {new : Value} {removed? : Option Value}

/-- **What an assignment at a path does.** -/
structure SetEffect (doc : Document) (item : Text) (path : ItemPath) (new : Value) : Prop where
  /-- The empty path is refused. -/
  emptyPath : path.segments = [] → doc.set item path new = .error .emptyPath
  /-- Any other path is accepted if its last segment is a step into the container before it. -/
  accepted_iff : ∀ parent last, path.segments = parent ++ [last] →
    ((∃ after, doc.set item path new = .ok after) ↔
      ∃ container, doc.get? item ⟨parent⟩ = some container ∧ container.Takes last)
  /-- Else it is not found. -/
  refused : path.segments ≠ [] → ∀ e, doc.set item path new = .error e → e = .notFound item path
  /-- A refusal leaves the document that is there. -/
  unchanged : ∀ e, doc.set item path new = .error e →
    (setInPlace item path new).outcome doc = (.error e, doc)
  /-- An assignment that is accepted is made in the container, and changes nothing else. -/
  effect : ∀ parent last after, path.segments = parent ++ [last] →
    doc.set item path new = .ok after →
      ∃ container changed, doc.get? item ⟨parent⟩ = some container ∧
        Value.Assigned last new container changed ∧ after = doc.replaceAt item ⟨parent⟩ changed ∧
        after.get? item ⟨parent⟩ = some changed ∧ Frame item [⟨parent⟩] doc after

/-- **What a withdrawal at a path does.** -/
structure RemoveEffect (doc : Document) (item : Text) (path : ItemPath) : Prop where
  /-- The empty path is refused. -/
  emptyPath : path.segments = [] → doc.remove item path = .error .emptyPath
  /-- Any other path is accepted if its last segment may be a step into the container before it. -/
  accepted_iff : ∀ parent last, path.segments = parent ++ [last] →
    ((∃ answer, doc.remove item path = .ok answer) ↔
      ∃ container, doc.get? item ⟨parent⟩ = some container ∧ container.Gives last)
  /-- Else it is not found. -/
  refused : path.segments ≠ [] → ∀ e, doc.remove item path = .error e → e = .notFound item path
  /-- A refusal leaves the document that is there. -/
  unchanged : ∀ e, doc.remove item path = .error e →
    (removeInPlace item path).outcome doc = (.error e, doc)
  /-- A withdrawal that is accepted is made in the container, and changes nothing else. -/
  effect : ∀ parent last removed? after, path.segments = parent ++ [last] →
    doc.remove item path = .ok (removed?, after) →
      ∃ container changed, doc.get? item ⟨parent⟩ = some container ∧
        Value.Withdrawn last container removed? changed ∧
        after = doc.replaceAt item ⟨parent⟩ changed ∧
        after.get? item ⟨parent⟩ = some changed ∧ Frame item [⟨parent⟩] doc after
  /-- Where there is nothing to take, the document stays as it is. -/
  nothing : ∀ after, doc.remove item path = .ok (none, after) → after = doc

/-! ## By the container -/

/-- **An assignment by its container.** -/
theorem set_eq (h : path.segments = parent ++ [last]) : doc.set item path new =
    match (doc.get? item ⟨parent⟩).bind (Value.assign? last new) with
    | some changed => .ok (doc.replaceAt item ⟨parent⟩ changed)
    | none => .error (.notFound item path) := by
  obtain ⟨hlast, hparent⟩ := ItemPath.last?_and_parent h
  simp only [Document.set, hlast, hparent, update?_eq]
  cases (doc.get? item ⟨parent⟩).bind (Value.assign? last new) <;> rfl

/-- **A withdrawal by its container.** -/
theorem remove_eq (h : path.segments = parent ++ [last]) : doc.remove item path =
    match (doc.get? item ⟨parent⟩).bind (Value.withdraw? last) with
    | some (removed?, changed) => .ok (removed?, doc.replaceAt item ⟨parent⟩ changed)
    | none => .error (.notFound item path) := by
  obtain ⟨hlast, hparent⟩ := ItemPath.last?_and_parent h
  simp only [Document.remove, hlast, hparent, update?_eq]
  cases doc.get? item ⟨parent⟩ with
  | none => rfl
  | some container => cases hchanged : container.withdraw? last <;> simp [hchanged]

theorem set_of_empty (h : path.segments = []) : doc.set item path new = .error .emptyPath := by
  simp [Document.set, ItemPath.last?, h]

theorem remove_of_empty (h : path.segments = []) : doc.remove item path = .error .emptyPath := by
  simp [Document.remove, ItemPath.last?, h]

theorem set_eq_ok_iff_of_segments (h : path.segments = parent ++ [last]) :
    doc.set item path new = .ok after ↔ ∃ container changed,
      doc.get? item ⟨parent⟩ = some container ∧ Value.assign? last new container = some changed ∧
        after = doc.replaceAt item ⟨parent⟩ changed := by
  obtain ⟨hlast, hparent⟩ := ItemPath.last?_and_parent h
  rw [set_eq_ok_iff, hlast, hparent]
  simp

theorem remove_eq_ok_iff_of_segments (h : path.segments = parent ++ [last]) :
    doc.remove item path = .ok (removed?, after) ↔ ∃ container changed,
      doc.get? item ⟨parent⟩ = some container ∧
        container.withdraw? last = some (removed?, changed) ∧
        after = doc.replaceAt item ⟨parent⟩ changed := by
  obtain ⟨hlast, hparent⟩ := ItemPath.last?_and_parent h
  rw [remove_eq_ok_iff, hlast, hparent]
  simp

/-! ## The two effects -/

theorem setEffect (doc : Document) (item : Text) (path : ItemPath) (new : Value) :
    SetEffect doc item path new where
  emptyPath := set_of_empty
  accepted_iff parent last h := by
    simp only [set_eq_ok_iff_of_segments h, ← Value.isSome_assign?_iff new,
      Option.isSome_iff_exists]
    constructor
    · rintro ⟨_, container, changed, hget, hchanged, rfl⟩
      exact ⟨container, hget, changed, hchanged⟩
    · rintro ⟨container, hget, changed, hchanged⟩
      exact ⟨_, container, changed, hget, hchanged, rfl⟩
  refused hne e he := by
    obtain ⟨parent, last, h⟩ := (List.eq_nil_or_concat' _).resolve_left hne
    rw [set_eq h] at he
    split at he
    · simp at he
    · exact (Except.error.inj he).symm
  unchanged e he := (performs_set item path new).outcome_of_error he
  effect parent last after h hset := by
    obtain ⟨container, changed, hget, hchanged, rfl⟩ := (set_eq_ok_iff_of_segments h).mp hset
    exact ⟨container, changed, hget, Value.assign?_eq_some_iff.mp hchanged, rfl,
      get?_replaceAt_self hget changed, frame_replaceAt doc item ⟨parent⟩ changed⟩

theorem removeEffect (doc : Document) (item : Text) (path : ItemPath) :
    RemoveEffect doc item path where
  emptyPath := remove_of_empty
  accepted_iff parent last h := by
    simp only [Prod.exists, remove_eq_ok_iff_of_segments h, ← Value.isSome_withdraw?_iff,
      Option.isSome_iff_exists]
    constructor
    · rintro ⟨removed?, _, container, changed, hget, hchanged, rfl⟩
      exact ⟨container, hget, removed?, changed, hchanged⟩
    · rintro ⟨container, hget, removed?, changed, hchanged⟩
      exact ⟨removed?, _, container, changed, hget, hchanged, rfl⟩
  refused hne e he := by
    obtain ⟨parent, last, h⟩ := (List.eq_nil_or_concat' _).resolve_left hne
    rw [remove_eq h] at he
    split at he
    · simp at he
    · exact (Except.error.inj he).symm
  unchanged e he := (performs_remove item path).answer_error he
  effect parent last removed? after h hremove := by
    obtain ⟨container, changed, hget, hchanged, rfl⟩ :=
      (remove_eq_ok_iff_of_segments h).mp hremove
    exact ⟨container, changed, hget, Value.withdraw?_eq_some_iff.mp hchanged, rfl,
      get?_replaceAt_self hget changed, frame_replaceAt doc item ⟨parent⟩ changed⟩
  nothing after hremove := by
    obtain ⟨_, container, changed, -, hget, hchanged, rfl⟩ := remove_eq_ok_iff.mp hremove
    rw [Value.eq_of_withdraw?_none hchanged, replaceAt_eq_self hget]

/-- An assignment where nothing stood is undone by a withdrawal, which answers what was
assigned. -/
theorem remove_of_set {rest : Document} (hnone : doc.remove item path = .ok (none, rest))
    (hset : doc.set item path new = .ok after) : after.remove item path = .ok (some new, doc) := by
  obtain ⟨last, container, changed, hlast, hget, hchanged, rfl⟩ := set_eq_ok_iff.mp hset
  obtain ⟨_, _, same, hlast', hget', hsame, -⟩ := remove_eq_ok_iff.mp hnone
  obtain rfl := Option.some.inj (hlast.symm.trans hlast')
  obtain rfl := Option.some.inj (hget.symm.trans hget')
  refine remove_eq_ok_iff.mpr ⟨last, changed, container, hlast, get?_replaceAt_self hget changed,
    Value.withdraw?_of_assign? hsame hchanged, ?_⟩
  rw [replaceAt_replaceAt, replaceAt_eq_self hget]

/-- **The exact effect of an assignment and of a withdrawal** at a path. Where a withdrawal would
find nothing and an assignment is accepted, a withdrawal after it answers what was assigned and
leaves the document as it was. -/
theorem set_and_remove_exact (doc : Document) (item : Text) (path : ItemPath) (new : Value) :
    SetEffect doc item path new ∧ RemoveEffect doc item path ∧
      ∀ rest after, doc.remove item path = .ok (none, rest) →
        doc.set item path new = .ok after → after.remove item path = .ok (some new, doc) :=
  ⟨setEffect doc item path new, removeEffect doc item path, fun _ _ => remove_of_set⟩

end Document

end ItemConditions
