import ItemConditions.Proofs.Value.Replacement

/-!
# Trees whose keys are distinct

A mapping has each of its keys once. The type of trees does not say so: entries are a list. What is
read has this property, and every change of a tree keeps it.

## Main definitions

* `Value.HasDistinctKeys`: no mapping in a tree has a key twice

## Main results

* `Value.HasDistinctKeys.at?`, `Value.HasDistinctKeys.replaceAt`: parts and replacements
* `Value.HasDistinctKeys.assign?`, `Value.HasDistinctKeys.withdraw?`: changes of a tree
-/

namespace ItemConditions

namespace Value

/-- **No mapping in a tree has a key twice.** -/
inductive HasDistinctKeys : Value → Prop
  | null : HasDistinctKeys .null
  | bool (b : Bool) : HasDistinctKeys (.bool b)
  | number (n : Number) : HasDistinctKeys (.number n)
  | string (s : Text) : HasDistinctKeys (.string s)
  | sequence {items : List Value} (hitems : ∀ v ∈ items, HasDistinctKeys v) :
    HasDistinctKeys (.sequence items)
  | mapping {entries : List (Text × Value)} (hkeys : (Entries.keys entries).Nodup)
    (hentries : ∀ e ∈ entries, HasDistinctKeys e.2) : HasDistinctKeys (.mapping entries)

attribute [simp] HasDistinctKeys.null HasDistinctKeys.bool HasDistinctKeys.number
  HasDistinctKeys.string

@[simp] theorem hasDistinctKeys_sequence_iff {items : List Value} :
    HasDistinctKeys (.sequence items) ↔ ∀ v ∈ items, HasDistinctKeys v :=
  ⟨fun | .sequence h => h, .sequence⟩

@[simp] theorem hasDistinctKeys_mapping_iff {entries : List (Text × Value)} :
    HasDistinctKeys (.mapping entries) ↔
      (Entries.keys entries).Nodup ∧ ∀ e ∈ entries, HasDistinctKeys e.2 :=
  ⟨fun | .mapping hkeys hentries => ⟨hkeys, hentries⟩, fun h => .mapping h.1 h.2⟩

theorem hasDistinctKeys_ofTexts (texts : List Text) : (ofTexts texts).HasDistinctKeys := by
  simp [ofTexts]

namespace HasDistinctKeys

variable {v part new w : Value} {step : Text} {p : List Text} {f : Value → Option Value}

/-- The parts of a tree with distinct keys have distinct keys. -/
theorem child? (h : v.HasDistinctKeys) (hpart : v.child? step = some part) :
    part.HasDistinctKeys := by
  cases h with
  | sequence hitems =>
    obtain ⟨i, -, hx⟩ := Option.bind_eq_some_iff.mp hpart
    exact hitems part (List.mem_of_getElem? hx)
  | mapping hkeys hentries => exact hentries _ (Entries.mem_of_get? hpart)
  | _ => simp [Value.child?] at hpart

theorem at? (h : v.HasDistinctKeys) (hpart : v.at? p = some part) : part.HasDistinctKeys := by
  induction p generalizing v with
  | nil =>
    obtain rfl := Option.some.inj hpart
    exact h
  | cons step p ih =>
    obtain ⟨next, hnext, hpart⟩ := Option.bind_eq_some_iff.mp hpart
    exact ih (h.child? hnext) hpart

theorem mapping_insert {es : List (Text × Value)} (h : HasDistinctKeys (.mapping es))
    (hnew : new.HasDistinctKeys) (key : Text) :
    HasDistinctKeys (.mapping (Entries.insert key new es)) := by
  obtain ⟨hkeys, hentries⟩ := hasDistinctKeys_mapping_iff.mp h
  refine .mapping (Entries.nodup_keys_insert hkeys key new) fun e he => ?_
  rcases Entries.mem_insert he with rfl | he
  · exact hnew
  · exact hentries e he

theorem sequence_set {xs : List Value} (h : HasDistinctKeys (.sequence xs))
    (hnew : new.HasDistinctKeys) (i : ℕ) : HasDistinctKeys (.sequence (xs.set i new)) := by
  refine .sequence fun x hx => ?_
  rcases List.mem_or_eq_of_mem_set hx with hx | rfl
  · exact hasDistinctKeys_sequence_iff.mp h x hx
  · exact hnew

theorem setChild (h : v.HasDistinctKeys) (hnew : new.HasDistinctKeys) (step : Text) :
    (setChild step new v).HasDistinctKeys := by
  cases v with
  | mapping es => exact h.mapping_insert hnew step
  | sequence xs =>
    rw [Value.setChild]
    split
    · next i _ => exact h.sequence_set hnew i
    · exact h
  | _ => exact h

/-- **A replacement** keeps keys distinct. -/
theorem replaceAt (h : v.HasDistinctKeys) (hnew : new.HasDistinctKeys) (p : List Text) :
    (v.replaceAt p new).HasDistinctKeys := by
  induction p generalizing v with
  | nil => rwa [replaceAt_nil]
  | cons step p ih =>
    cases hpart : v.child? step with
    | none => rwa [replaceAt_cons_of_none hpart]
    | some part =>
      rw [replaceAt_cons hpart]
      exact h.setChild (ih (h.child? hpart)) step

/-- **An assignment** of a tree with distinct keys keeps keys distinct. -/
theorem assign? (h : v.HasDistinctKeys) (hnew : new.HasDistinctKeys)
    (hw : Value.assign? step new v = some w) : w.HasDistinctKeys := by
  cases v with
  | mapping es =>
    obtain rfl := Option.some.inj hw
    exact h.mapping_insert hnew step
  | sequence xs =>
    rw [Value.assign?] at hw
    split at hw
    · next i _ =>
      split_ifs at hw
      · obtain rfl := Option.some.inj hw
        exact h.sequence_set hnew i
      · obtain rfl := Option.some.inj hw
        simpa [or_imp, forall_and] using ⟨hasDistinctKeys_sequence_iff.mp h, hnew⟩
    · simp at hw
  | _ => exact absurd hw (by simp [Value.assign?])

/-- **A withdrawal** keeps keys distinct. -/
theorem withdraw? {removed? : Option Value} (h : v.HasDistinctKeys)
    (hw : Value.withdraw? step v = some (removed?, w)) : w.HasDistinctKeys := by
  cases v with
  | mapping es =>
    obtain ⟨-, rfl⟩ := Prod.mk.inj (Option.some.inj hw)
    obtain ⟨hkeys, hentries⟩ := hasDistinctKeys_mapping_iff.mp h
    refine .mapping (Entries.nodup_keys_erase hkeys step) fun e he => ?_
    exact hentries e (Entries.mem_of_mem_erase he)
  | sequence xs =>
    rw [Value.withdraw?] at hw
    split at hw
    · obtain ⟨-, rfl⟩ := Prod.mk.inj (Option.some.inj hw)
      exact .sequence fun x hx => hasDistinctKeys_sequence_iff.mp h x (List.mem_of_mem_eraseIdx hx)
    · simp at hw
  | _ => exact absurd hw (by simp [Value.withdraw?])

end HasDistinctKeys

end Value

end ItemConditions
