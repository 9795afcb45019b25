import ItemConditions.Document.Reader
import ItemConditions.Proofs.Document.Agreement
import ItemConditions.Proofs.Fallible
import ItemConditions.Proofs.Value.DistinctKeys

/-!
# Documents whose keys are distinct

Every document that is read has distinct keys, and so has every document that comes from one by
assignments, withdrawals and commits.

## Main definitions

* `Document.HasDistinctKeys`: no mapping in a document has a key twice

## Main results

* `Document.hasDistinctKeys_of_ofYaml`: documents that are read
* `Document.HasDistinctKeys.set`, `Document.HasDistinctKeys.remove`,
  `Document.HasDistinctKeys.commit`: documents that are changed
-/

namespace ItemConditions

namespace Yaml.Node

open Value (HasDistinctKeys)

mutual

/-- The value of a node has distinct keys. -/
theorem hasDistinctKeys_of_toValue : ∀ (n : Node) {v : Value}, n.toValue = .ok v →
    v.HasDistinctKeys
  | .null, v, h | .bool _, v, h | .string _, v, h | .number (.whole _), v, h => by
    rw [toValue] at h
    obtain rfl := Except.ok.inj h
    simp
  | .number (.real x), v, h => by
    rw [toValue] at h
    obtain rfl := Except.ok.inj h
    split <;> simp
  | .sequence xs, v, h => by
    rw [toValue] at h
    obtain ⟨vs, hvs, rfl⟩ := ok_of_map h
    exact .sequence (hasDistinctKeys_of_toValues xs hvs)
  | .mapping es, v, h => by
    rw [toValue] at h
    obtain ⟨fs, hfs, rfl⟩ := ok_of_map h
    obtain ⟨hkeys, hsubset⟩ := Entries.nodup_keys_ofList fs
    exact .mapping hkeys fun e he => hasDistinctKeys_of_toEntries es hfs e (hsubset e he)
  | .tagged tag x, v, h => by
    rw [toValue] at h
    obtain ⟨w, hw, rfl⟩ := ok_of_map h
    simpa [Entries.keys] using hasDistinctKeys_of_toValue x hw

theorem hasDistinctKeys_of_toValues : ∀ (ns : List Node) {vs : List Value},
    toValues ns = .ok vs → ∀ v ∈ vs, v.HasDistinctKeys
  | [], vs, h => by
    rw [toValues] at h
    obtain rfl := Except.ok.inj h
    simp
  | n :: ns, vs, h => by
    rw [toValues] at h
    obtain ⟨v, hv, h⟩ := ok_of_bind h
    obtain ⟨ws, hws, h⟩ := ok_of_bind h
    obtain rfl := Except.ok.inj h
    exact List.forall_mem_cons.mpr
      ⟨hasDistinctKeys_of_toValue n hv, hasDistinctKeys_of_toValues ns hws⟩

theorem hasDistinctKeys_of_toEntries : ∀ (ns : List (Node × Node)) {es : List (Text × Value)},
    toEntries ns = .ok es → ∀ e ∈ es, e.2.HasDistinctKeys
  | [], es, h => by
    rw [toEntries] at h
    obtain rfl := Except.ok.inj h
    simp
  | (key, n) :: ns, es, h => by
    rw [toEntries] at h
    obtain ⟨t, -, h⟩ := ok_of_bind h
    obtain ⟨v, hv, h⟩ := ok_of_bind h
    obtain ⟨fs, hfs, h⟩ := ok_of_bind h
    obtain rfl := Except.ok.inj h
    exact List.forall_mem_cons.mpr
      ⟨hasDistinctKeys_of_toValue n hv, hasDistinctKeys_of_toEntries ns hfs⟩

end

end Yaml.Node

theorem Yaml.hasDistinctKeys_of_read {t : Text} {v : Value} (h : Yaml.read t = .ok v) :
    v.HasDistinctKeys := by
  obtain ⟨n, -, h⟩ := ok_of_bind h
  split at h
  · next w hw =>
    obtain rfl := Except.ok.inj h
    obtain ⟨merged, -, hvalue⟩ := ok_of_bind hw
    exact Yaml.Node.hasDistinctKeys_of_toValue merged hvalue
  · simp at h

/-- What is written for records has no keys at all. -/
theorem Slot.hasDistinctKeys_of_toValue? {encoded : Encoded} {v : Value}
    (h : encoded.toValue? = some v) : v.HasDistinctKeys := by
  cases encoded with
  | script text? =>
    obtain ⟨t, -, rfl⟩ := Option.map_eq_some_iff.mp h
    exact .string t
  | commands lines =>
    obtain rfl := Option.some.inj h
    exact Value.hasDistinctKeys_ofTexts lines

namespace Document

/-- **No mapping in a document has a key twice.** -/
def HasDistinctKeys (doc : Document) : Prop := doc.toValue.HasDistinctKeys

variable {doc after : Document} {item : Text} {path : ItemPath} {new : Value}

theorem hasDistinctKeys_of_ofValue {v : Value} (h : v.HasDistinctKeys)
    (hdoc : ofValue v = .ok doc) : doc.HasDistinctKeys := by
  unfold ofValue at hdoc
  split at hdoc
  · obtain rfl := Except.ok.inj hdoc
    exact h
  · obtain rfl := Except.ok.inj hdoc
    exact .mapping List.nodup_nil (by simp [empty])
  · simp at hdoc

/-- A document that is read has distinct keys. -/
theorem hasDistinctKeys_of_ofYaml {t : Text} (h : ofYaml t = .ok doc) : doc.HasDistinctKeys := by
  rw [ofYaml] at h
  split_ifs at h
  · obtain rfl := Except.ok.inj h
    exact .mapping List.nodup_nil (by simp [empty])
  · split at h
    · next v hv =>
      rw [read] at h
      exact hasDistinctKeys_of_ofValue (Yaml.hasDistinctKeys_of_read hv) (ok_of_mapError h)
    · simp at h

namespace HasDistinctKeys

/-- The trees of items have distinct keys. -/
theorem item? {tree : Value} (h : doc.HasDistinctKeys) (htree : doc.item? item = some tree) :
    tree.HasDistinctKeys :=
  have hchild : doc.toValue.child? item = some tree := htree
  Value.HasDistinctKeys.child? h hchild

theorem get? {v : Value} (h : doc.HasDistinctKeys) (hv : doc.get? item path = some v) :
    v.HasDistinctKeys := by
  rw [get?_eq] at hv
  exact Value.HasDistinctKeys.at? h hv

theorem replaceAt (h : doc.HasDistinctKeys) (hnew : new.HasDistinctKeys) (item : Text)
    (path : ItemPath) : (doc.replaceAt item path new).HasDistinctKeys := by
  rw [HasDistinctKeys, toValue_replaceAt]
  exact Value.HasDistinctKeys.replaceAt h hnew _

/-- **An assignment** of a value with distinct keys keeps keys distinct. -/
theorem set (h : doc.HasDistinctKeys) (hnew : new.HasDistinctKeys)
    (hset : doc.set item path new = .ok after) : after.HasDistinctKeys := by
  obtain ⟨last, container, changed, -, hcontainer, hchanged, rfl⟩ := set_eq_ok_iff.mp hset
  exact h.replaceAt ((h.get? hcontainer).assign? hnew hchanged) item path.parent

/-- **A withdrawal** keeps keys distinct. -/
theorem remove {removed? : Option Value} (h : doc.HasDistinctKeys)
    (hremove : doc.remove item path = .ok (removed?, after)) : after.HasDistinctKeys := by
  obtain ⟨last, container, changed, -, hcontainer, hchanged, rfl⟩ := remove_eq_ok_iff.mp hremove
  exact h.replaceAt ((h.get? hcontainer).withdraw? hchanged) item path.parent

/-- **A commit** keeps keys distinct. -/
theorem commit {rs : List Record} {outcome : CommitOutcome} (h : doc.HasDistinctKeys)
    (hcommit : (doc.commit item path rs).answer = .ok (outcome, after)) :
    after.HasDistinctKeys := by
  rcases set_or_remove_of_commit hcommit with ⟨new, hnew, hset⟩ | ⟨removed?, hremove⟩
  · exact h.set (Slot.hasDistinctKeys_of_toValue? hnew) hset
  · exact h.remove hremove

end HasDistinctKeys

end Document

end ItemConditions
