import ItemConditions.Text

/-!
# Keyed entries

A list of values under keys, in the order in which the keys first came. The keys of a document are
texts; those of a tree of files are sequences of names.

## Main definitions

* `Entries.get?`, `Entries.insert`, `Entries.erase`: look-up, assignment in place or at the end, and
  removal that keeps the order of the others
* `Entries.ofList`: the entries of a list of pairs, where a later value takes the place of an
  earlier one

## Main results

* `Entries.get?_insert`: what is read after an assignment
* `Entries.keys_insert`: an assignment adds its key at the end, or leaves the keys alone
-/

namespace ItemConditions

/-- Values under text keys, in order. -/
abbrev Entries (α : Type) := List (Text × α)

namespace Entries

variable {κ α : Type}

/-- The keys, in order. -/
def keys (es : List (κ × α)) : List κ := es.map Prod.fst

variable [DecidableEq κ]

/-- The value under a key. -/
def get? (key : κ) : List (κ × α) → Option α
  | [] => none
  | (k, v) :: es => if k = key then some v else get? key es

/-- **Assignment**: an entry that is there keeps its position, a new one goes last. -/
def insert (key : κ) (value : α) : List (κ × α) → List (κ × α)
  | [] => [(key, value)]
  | (k, v) :: es => if k = key then (k, value) :: es else (k, v) :: insert key value es

/-- The entries without the one under a key; the others keep their order. -/
def erase (key : κ) : List (κ × α) → List (κ × α)
  | [] => []
  | (k, v) :: es => if k = key then es else (k, v) :: erase key es

/-- The entries of a list of pairs: a key that comes again only changes its value. -/
def ofList (pairs : List (κ × α)) : List (κ × α) :=
  pairs.foldl (fun es (key, value) => insert key value es) []

/-- An assignment is read back, and changes no other look-up. -/
theorem get?_insert (key other : κ) (value : α) (es : List (κ × α)) :
    get? other (insert key value es) = if other = key then some value else get? other es := by
  induction es with
  | nil => simp [insert, get?, eq_comm]
  | cons e es ih =>
    obtain ⟨k, v⟩ := e
    by_cases hk : k = key
    · subst hk
      by_cases ho : other = k
      · simp [insert, get?, ho]
      · simp [insert, get?, ho, Ne.symm ho]
    · by_cases ho : k = other
      · subst ho
        simp [insert, get?, hk]
      · simp [insert, get?, hk, ho, ih]

/-- An assignment adds its key at the end if it is new, and else leaves the keys alone. -/
theorem keys_insert (key : κ) (value : α) (es : List (κ × α)) :
    keys (insert key value es) = if key ∈ keys es then keys es else keys es ++ [key] := by
  induction es with
  | nil => simp [insert, keys]
  | cons e es ih =>
    obtain ⟨k, v⟩ := e
    by_cases hk : k = key
    · simp [insert, keys, hk]
    · simp only [keys, List.map_cons, insert, hk, ↓reduceIte] at ih ⊢
      rw [ih]
      by_cases hm : key ∈ es.map Prod.fst <;> simp [hm, Ne.symm hk]

/-- The keys after a removal. -/
theorem keys_erase (key : κ) (es : List (κ × α)) : keys (erase key es) = (keys es).erase key := by
  induction es with
  | nil => rfl
  | cons e es ih =>
    obtain ⟨k, v⟩ := e
    by_cases hk : k = key
    · simp [erase, keys, hk]
    · simp only [keys, List.map_cons] at ih ⊢
      simp [erase, hk, ih]

end Entries

end ItemConditions
