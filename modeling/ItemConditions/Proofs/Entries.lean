import ItemConditions.Entries
import Mathlib.Data.List.Induction
import Mathlib.Data.List.Nodup

/-!
# Look-ups and assignments of entries

What is found under a key, and what an assignment to a key that is there leaves as it is.

## Main results

* `Entries.exists_split`: an assignment replaces one entry
* `Entries.get?_eq_some_iff`: where no key comes twice, the entries are what is found
* `Entries.insert_first`, `Entries.erase_first`: an assignment and a removal of a key that is there
* `Entries.insert_of_notMem`, `Entries.erase_of_notMem`: the same for a key that is not
* `Entries.insert_eq_self`, `Entries.flatMap_insert`: assignments that change nothing
* `Entries.insert_insert`, `Entries.insert_comm`: two assignments
* `Entries.nodup_keys_insert`, `Entries.nodup_keys_ofList`: keys stay distinct
* `Entries.get?_ofList_map_iff`: when no value of a list of pairs gives way to another one
-/

namespace ItemConditions.Entries

variable {κ α β ι : Type} [DecidableEq κ] {key : κ} {value : α} {es : List (κ × α)}

/-- An assignment to a key that is there replaces the entry that is found. -/
theorem exists_split (h : get? key es = some value) : ∃ before after,
    es = before ++ (key, value) :: after ∧
      ∀ new, insert key new es = before ++ (key, new) :: after := by
  induction es with
  | nil => simp [get?] at h
  | cons e es ih =>
    obtain ⟨k, v⟩ := e
    by_cases hk : k = key
    · subst hk
      obtain rfl : v = value := by simpa [get?] using h
      exact ⟨[], es, rfl, fun new => by simp [insert]⟩
    · obtain ⟨before, after, heq, hinsert⟩ := ih (by simpa [get?, hk] using h)
      refine ⟨(k, v) :: before, after, by rw [heq, List.cons_append], fun new => ?_⟩
      rw [insert, if_neg hk, hinsert, List.cons_append]

theorem mem_of_get? (h : get? key es = some value) : (key, value) ∈ es := by
  obtain ⟨before, after, rfl, -⟩ := exists_split h
  simp

theorem mem_keys_of_get? (h : get? key es = some value) : key ∈ keys es :=
  List.mem_map_of_mem (f := Prod.fst) (mem_of_get? h)

/-- Where no key comes twice, the entries are what is found under their keys. -/
theorem get?_eq_some_iff (hkeys : (keys es).Nodup) :
    get? key es = some value ↔ (key, value) ∈ es := by
  refine ⟨mem_of_get?, fun h => ?_⟩
  induction es with
  | nil => simp at h
  | cons e es ih =>
    obtain ⟨hk, hes⟩ := List.nodup_cons.mp hkeys
    rcases List.mem_cons.mp h with rfl | hmem
    · simp [get?]
    · have hne : e.1 ≠ key := by
        intro hkey
        exact hk (hkey ▸ List.mem_map_of_mem (f := Prod.fst) hmem)
      simpa [get?, hne] using ih hes hmem

/-- An assignment of what is there changes nothing. -/
theorem insert_eq_self (h : get? key es = some value) : insert key value es = es := by
  obtain ⟨before, after, heq, hinsert⟩ := exists_split h
  rw [hinsert, ← heq]

/-- An assignment to a key that is there keeps the keys. -/
theorem keys_insert_of_get? (h : get? key es = some value) (new : α) :
    keys (insert key new es) = keys es := by
  rw [keys_insert, if_pos (mem_keys_of_get? h)]

/-! ## The first entry of a key -/

section First

variable {before after : List (κ × α)}

theorem get?_first (h : key ∉ keys before) (value : α) (after : List (κ × α)) :
    get? key (before ++ (key, value) :: after) = some value := by
  induction before with
  | nil => simp [get?]
  | cons e before ih =>
    obtain ⟨hk, h⟩ := not_or.mp (List.mem_cons.not.mp h)
    rw [List.cons_append, get?, if_neg (Ne.symm hk), ih h]

theorem insert_first (h : key ∉ keys before) (value new : α) (after : List (κ × α)) :
    insert key new (before ++ (key, value) :: after) = before ++ (key, new) :: after := by
  induction before with
  | nil => simp [insert]
  | cons e before ih =>
    obtain ⟨hk, h⟩ := not_or.mp (List.mem_cons.not.mp h)
    rw [List.cons_append, insert, if_neg (Ne.symm hk), ih h, List.cons_append]

theorem erase_first (h : key ∉ keys before) (value : α) (after : List (κ × α)) :
    erase key (before ++ (key, value) :: after) = before ++ after := by
  induction before with
  | nil => simp [erase]
  | cons e before ih =>
    obtain ⟨hk, h⟩ := not_or.mp (List.mem_cons.not.mp h)
    rw [List.cons_append, erase, if_neg (Ne.symm hk), ih h, List.cons_append]

theorem get?_of_notMem (h : key ∉ keys es) : get? key es = none :=
  Option.eq_none_iff_forall_not_mem.mpr fun _ hvalue => h (mem_keys_of_get? hvalue)

theorem insert_of_notMem (h : key ∉ keys es) (new : α) :
    insert key new es = es ++ [(key, new)] := by
  induction es with
  | nil => rfl
  | cons e es ih =>
    obtain ⟨hk, h⟩ := not_or.mp (List.mem_cons.not.mp h)
    rw [insert, if_neg (Ne.symm hk), ih h, List.cons_append]

theorem erase_of_notMem (h : key ∉ keys es) : erase key es = es := by
  induction es with
  | nil => rfl
  | cons e es ih =>
    obtain ⟨hk, h⟩ := not_or.mp (List.mem_cons.not.mp h)
    rw [erase, if_neg (Ne.symm hk), ih h]

omit [DecidableEq κ] in
/-- A key that is there has a first entry. -/
theorem exists_first (h : key ∈ keys es) : ∃ before value after,
    es = before ++ (key, value) :: after ∧ key ∉ keys before := by
  obtain ⟨before, after, hkeys, hbefore⟩ := List.eq_append_cons_of_mem h
  obtain ⟨front, rest, rfl, rfl, hrest⟩ := List.map_eq_append_iff.mp hkeys
  obtain ⟨⟨_, value⟩, back, rfl, rfl, -⟩ := List.map_eq_cons_iff.mp hrest
  exact ⟨front, value, back, rfl, hbefore⟩

end First

/-! ## Two assignments -/

/-- Of two assignments to one key the second one counts. -/
theorem insert_insert (key : κ) (old new : α) (es : List (κ × α)) :
    insert key new (insert key old es) = insert key new es := by
  induction es with
  | nil => simp [insert]
  | cons e es ih => by_cases hk : e.1 = key <;> simp [insert, hk, ih]

/-- **Assignments to two keys** commute if one of the keys is there. -/
theorem insert_comm {other : κ} (hne : key ≠ other) (h : key ∈ keys es) (new new' : α) :
    insert other new' (insert key new es) = insert key new (insert other new' es) := by
  induction es with
  | nil => exact absurd h List.not_mem_nil
  | cons e es ih =>
    obtain ⟨k, v⟩ := e
    by_cases hk : k = key
    · subst hk
      simp [insert, hne]
    · have hrest := ih ((List.mem_cons.mp h).resolve_left (Ne.symm hk))
      by_cases hother : k = other
      · subst hother
        simp [insert, hk]
      · simp [insert, hk, hother, hrest]

/-- An assignment that a traversal does not notice leaves its outcome. -/
theorem flatMap_insert {g : κ × α → List β} (h : get? key es = some value) {new : α}
    (hg : g (key, new) = g (key, value)) : (insert key new es).flatMap g = es.flatMap g := by
  obtain ⟨before, after, heq, hinsert⟩ := exists_split h
  rw [hinsert, heq]
  simp [hg]

/-! ## Keys that stay distinct -/

theorem nodup_keys_insert (h : (keys es).Nodup) (key : κ) (value : α) :
    (keys (insert key value es)).Nodup := by
  rw [keys_insert]
  split_ifs with hmem
  · exact h
  · refine h.append (List.nodup_singleton key) fun k hk hk' => ?_
    rw [List.mem_singleton.mp hk'] at hk
    exact hmem hk

theorem nodup_keys_erase (h : (keys es).Nodup) (key : κ) : (keys (erase key es)).Nodup := by
  rw [keys_erase]
  exact h.erase key

theorem mem_insert {e : κ × α} (h : e ∈ insert key value es) : e = (key, value) ∨ e ∈ es := by
  induction es with
  | nil => exact Or.inl (List.mem_singleton.mp h)
  | cons e' es ih =>
    obtain ⟨k, v⟩ := e'
    by_cases hk : k = key
    · rw [insert, if_pos hk] at h
      rcases List.mem_cons.mp h with rfl | h
      · exact Or.inl (by rw [hk])
      · exact Or.inr (List.mem_cons_of_mem _ h)
    · rw [insert, if_neg hk] at h
      rcases List.mem_cons.mp h with rfl | h
      · exact Or.inr List.mem_cons_self
      · exact (ih h).imp id (List.mem_cons_of_mem _)

theorem mem_of_mem_erase {e : κ × α} (h : e ∈ erase key es) : e ∈ es := by
  induction es with
  | nil => exact h
  | cons e' es ih =>
    obtain ⟨k, v⟩ := e'
    by_cases hk : k = key
    · rw [erase, if_pos hk] at h
      exact List.mem_cons_of_mem _ h
    · rw [erase, if_neg hk] at h
      rcases List.mem_cons.mp h with rfl | h
      · exact List.mem_cons_self
      · exact List.mem_cons_of_mem _ (ih h)

/-- **The entries of a list of pairs** have distinct keys, and are pairs of the list. -/
theorem nodup_keys_ofList (pairs : List (κ × α)) :
    (keys (ofList pairs)).Nodup ∧ ∀ e ∈ ofList pairs, e ∈ pairs := by
  induction pairs using List.reverseRecOn with
  | nil => exact ⟨List.nodup_nil, fun e he => he⟩
  | append_singleton pairs pair ih =>
    obtain ⟨key, value⟩ := pair
    have hlast : ofList (pairs ++ [(key, value)]) = insert key value (ofList pairs) := by
      simp [ofList]
    rw [hlast]
    refine ⟨nodup_keys_insert ih.1 key value, fun e he => ?_⟩
    rcases mem_insert he with rfl | he
    · exact List.mem_append_right _ List.mem_cons_self
    · exact List.mem_append_left _ (ih.2 e he)

/-! ## Lists of pairs -/

/-- Of several values under a key one is kept. -/
theorem exists_get?_ofList {pairs : List (κ × α)} {key : κ} (h : key ∈ keys pairs) :
    ∃ value, get? key (ofList pairs) = some value ∧ (key, value) ∈ pairs := by
  induction pairs using List.reverseRecOn with
  | nil => exact absurd h List.not_mem_nil
  | append_singleton pairs last ih =>
    obtain ⟨k, v⟩ := last
    have hlast : ofList (pairs ++ [(k, v)]) = insert k v (ofList pairs) := List.foldl_concat ..
    rw [hlast, get?_insert]
    by_cases hk : key = k
    · subst hk
      exact ⟨v, if_pos rfl, by simp⟩
    · have hmem : key ∈ keys pairs := by simpa [keys, hk] using h
      obtain ⟨value, hvalue, hpair⟩ := ih hmem
      exact ⟨value, by rw [if_neg hk, hvalue], List.mem_append_left _ hpair⟩

/-- **All values are kept** if those under one key are equal. -/
theorem get?_ofList_map_iff {items : List ι} (key : ι → κ) (value : ι → α) :
    (∀ i ∈ items, get? (key i) (ofList (items.map fun i => (key i, value i))) = some (value i)) ↔
      ∀ i ∈ items, ∀ j ∈ items, key i = key j → value i = value j := by
  constructor
  · intro h i hi j hj hkey
    have hvalue := h i hi
    rw [hkey, h j hj] at hvalue
    exact (Option.some.inj hvalue).symm
  · intro h i hi
    have hmem : key i ∈ keys (items.map fun i => (key i, value i)) := by
      rw [keys, List.map_map]
      exact List.mem_map_of_mem (f := key) hi
    obtain ⟨v, hv, hpair⟩ := exists_get?_ofList hmem
    obtain ⟨j, hj, heq⟩ := List.mem_map.mp hpair
    obtain ⟨hkey, rfl⟩ := Prod.mk.inj heq
    rw [hv, h i hi j hj hkey.symm]

end ItemConditions.Entries
