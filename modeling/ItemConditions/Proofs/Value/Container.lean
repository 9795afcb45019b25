import ItemConditions.Proofs.Value.Replacement

/-!
# Assignments and withdrawals in containers

What one assignment or one withdrawal makes of a container, entry by entry and item by item. A key
that is there keeps its position and a new one goes last; an item is exchanged, or one more is
appended. A withdrawal closes the gap, and all others keep their order.

## Main definitions

* `Value.Spells`: the spellings of a lenient index
* `Value.Assigned`, `Value.Withdrawn`: the container before and after
* `Value.Takes`, `Value.Gives`: the containers that can be written to, and taken from

## Main results

* `Value.position?_eq_some_iff`: a lenient index is read from its spellings
* `Value.assign?_eq_some_iff`, `Value.withdraw?_eq_some_iff`: the exact effect of one step
* `Value.withdraw?_of_assign?`: an assignment where nothing stood is undone
-/

namespace ItemConditions

namespace Value

/-- **The spellings of a lenient index**: its numeral behind any number of zeros, with a plus in
front or not. -/
def Spells (step : Text) (i : ℕ) : Prop :=
  i < indexLimit ∧ ∃ zeros, step = Text.repeated zeros '0' ++ Text.ofNat i ∨
    step = '+' :: (Text.repeated zeros '0' ++ Text.ofNat i)

/-- **What an assignment makes of a container.** -/
inductive Assigned (step : Text) (new : Value) : Value → Value → Prop
  /-- A key that is there keeps its position. -/
  | replacedKey {before after : List (Text × Value)} {old : Value}
    (first : step ∉ Entries.keys before) :
    Assigned step new (.mapping (before ++ (step, old) :: after))
      (.mapping (before ++ (step, new) :: after))
  /-- A new key goes last. -/
  | newKey {es : List (Text × Value)} (fresh : step ∉ Entries.keys es) :
    Assigned step new (.mapping es) (.mapping (es ++ [(step, new)]))
  /-- An item is exchanged. -/
  | replacedItem {before after : List Value} {old : Value} (spelled : Spells step before.length) :
    Assigned step new (.sequence (before ++ old :: after)) (.sequence (before ++ new :: after))
  /-- An item is appended. -/
  | newItem {xs : List Value} (spelled : Spells step xs.length) :
    Assigned step new (.sequence xs) (.sequence (xs ++ [new]))

/-- **What a withdrawal answers**, and what it makes of a container. -/
inductive Withdrawn (step : Text) : Value → Option Value → Value → Prop
  /-- The entry of a key. -/
  | key {before after : List (Text × Value)} {old : Value} (first : step ∉ Entries.keys before) :
    Withdrawn step (.mapping (before ++ (step, old) :: after)) (some old)
      (.mapping (before ++ after))
  /-- There is no such key. -/
  | noKey {es : List (Text × Value)} (fresh : step ∉ Entries.keys es) :
    Withdrawn step (.mapping es) none (.mapping es)
  /-- An item. -/
  | item {before after : List Value} {old : Value} (spelled : Spells step before.length) :
    Withdrawn step (.sequence (before ++ old :: after)) (some old) (.sequence (before ++ after))
  /-- There is no such item. -/
  | noItem {xs : List Value} {i : ℕ} (spelled : Spells step i) (beyond : xs.length ≤ i) :
    Withdrawn step (.sequence xs) none (.sequence xs)

/-- A container that can be written to by a step. -/
def Takes (step : Text) (v : Value) : Prop :=
  (∃ es, v = .mapping es) ∨ ∃ xs i, v = .sequence xs ∧ Spells step i ∧ i ≤ xs.length

/-- A container that can be taken from by a step. -/
def Gives (step : Text) (v : Value) : Prop :=
  (∃ es, v = .mapping es) ∨ ∃ xs i, v = .sequence xs ∧ Spells step i

variable {step : Text} {v w new : Value} {removed? : Option Value} {i : ℕ}

/-! ## Spellings -/

/-- Digits are the numeral of their value behind zeros. -/
theorem exists_zeros {t : Text} (hne : t ≠ []) (hdigits : ∀ c ∈ t, c.isDigit) :
    ∃ zeros, t = Text.repeated zeros '0' ++ Text.ofNat (Numeral.digitsValue 0 t) := by
  induction t with
  | nil => exact absurd rfl hne
  | cons c r ih =>
    by_cases hzero : c = '0' ∧ r ≠ []
    · obtain ⟨rfl, hr⟩ := hzero
      obtain ⟨zeros, h⟩ := ih hr fun d hd => hdigits d (List.mem_cons_of_mem _ hd)
      have hvalue : Numeral.digitsValue 0 ('0' :: r) = Numeral.digitsValue 0 r := rfl
      refine ⟨zeros + 1, ?_⟩
      rw [hvalue, Text.repeated, List.replicate_succ, List.cons_append]
      exact congrArg _ h
    · refine ⟨0, (Text.ofNat_digitsValue hne hdigits fun hhead => ?_).symm⟩
      obtain rfl : c = '0' := Option.some.inj hhead
      simpa using hzero

theorem digits?_eq_some_iff {t : Text} : digits? t = some i ↔
    i < indexLimit ∧ ∃ zeros, t = Text.repeated zeros '0' ++ Text.ofNat i := by
  rw [digits?, Option.filter_eq_some_iff, Text.toNat?_eq_some_iff, decide_eq_true_iff, and_comm]
  refine and_congr_right fun _ => ⟨?_, ?_⟩
  · rintro ⟨⟨hne, hdigits⟩, rfl⟩
    exact exists_zeros hne hdigits
  · rintro ⟨zeros, rfl⟩
    refine ⟨⟨by simp [Numeral.ofNat_ne_nil], fun c hc => ?_⟩, ?_⟩
    · rcases List.mem_append.mp hc with hc | hc
      · exact Numeral.isDigit_of_mem_zeros hc
      · exact Numeral.isDigit_of_mem_ofNat hc
    · rw [Numeral.digitsValue_append, Numeral.digitsValue_zeros, Nat.mul_zero,
        Numeral.digitsValue_ofNat]

/-- A lenient index is read from its spellings. -/
theorem position?_eq_some_iff : position? step = some i ↔ Spells step i := by
  have hplus (zeros : ℕ) (t : Text) : Text.repeated zeros '0' ++ Text.ofNat i ≠ '+' :: t := by
    intro h
    have hmem : '+' ∈ Text.repeated zeros '0' ++ Text.ofNat i := by simp [h]
    rcases List.mem_append.mp hmem with hmem | hmem
    · exact absurd (Numeral.isDigit_of_mem_zeros hmem) (by decide)
    · exact absurd (Numeral.isDigit_of_mem_ofNat hmem) (by decide)
  rw [Spells, position?.eq_def]
  split
  · next t =>
    rw [digits?_eq_some_iff]
    simp [(hplus _ t).symm]
  · next hstep =>
    rw [digits?_eq_some_iff]
    refine and_congr_right fun _ => exists_congr fun zeros => (or_iff_left fun h => ?_).symm
    exact hstep _ h

/-- A spelling means one index. -/
theorem Spells.inj {j : ℕ} (hi : Spells step i) (hj : Spells step j) : i = j :=
  Option.some.inj ((position?_eq_some_iff.mpr hi).symm.trans (position?_eq_some_iff.mpr hj))

/-! ## One step -/

/-- **The exact effect of an assignment.** -/
theorem assign?_eq_some_iff : assign? step new v = some w ↔ Assigned step new v w := by
  constructor
  · intro h
    cases v with
    | mapping es =>
      obtain rfl := Option.some.inj h
      by_cases hkey : step ∈ Entries.keys es
      · obtain ⟨before, old, after, rfl, hfirst⟩ := Entries.exists_first hkey
        rw [Entries.insert_first hfirst]
        exact .replacedKey hfirst
      · rw [Entries.insert_of_notMem hkey]
        exact .newKey hkey
    | sequence xs =>
      rw [assign?] at h
      split at h
      · next i hi =>
        have hspelled := position?_eq_some_iff.mp hi
        split_ifs at h with hlt heq
        · obtain rfl := Option.some.inj h
          have hsplit : xs = xs.take i ++ xs[i] :: xs.drop (i + 1) := by simp
          have hset : xs.set i new = xs.take i ++ new :: xs.drop (i + 1) :=
            List.set_eq_take_append_cons_drop.trans (if_pos hlt)
          have hlength : (xs.take i).length = i := List.length_take_of_le hlt.le
          rw [hset]
          conv => enter [3]; rw [hsplit]
          exact .replacedItem (hlength.symm ▸ hspelled)
        · obtain rfl := Option.some.inj h
          exact .newItem (heq ▸ hspelled)
      · simp at h
    | _ => simp [assign?] at h
  · intro h
    cases h with
    | replacedKey hfirst => rw [assign?, Entries.insert_first hfirst]
    | newKey hfresh => rw [assign?, Entries.insert_of_notMem hfresh]
    | replacedItem hspelled => simp [assign?, position?_eq_some_iff.mpr hspelled]
    | newItem hspelled => simp [assign?, position?_eq_some_iff.mpr hspelled]

/-- **The exact effect of a withdrawal.** -/
theorem withdraw?_eq_some_iff :
    withdraw? step v = some (removed?, w) ↔ Withdrawn step v removed? w := by
  constructor
  · intro h
    cases v with
    | mapping es =>
      obtain ⟨rfl, rfl⟩ := Prod.mk.inj (Option.some.inj h)
      by_cases hkey : step ∈ Entries.keys es
      · obtain ⟨before, old, after, rfl, hfirst⟩ := Entries.exists_first hkey
        rw [Entries.get?_first hfirst, Entries.erase_first hfirst]
        exact .key hfirst
      · rw [Entries.get?_of_notMem hkey, Entries.erase_of_notMem hkey]
        exact .noKey hkey
    | sequence xs =>
      rw [withdraw?] at h
      split at h
      · next i hi =>
        have hspelled := position?_eq_some_iff.mp hi
        obtain ⟨rfl, rfl⟩ := Prod.mk.inj (Option.some.inj h)
        rcases Nat.lt_or_ge i xs.length with hlt | hge
        · have hsplit : xs = xs.take i ++ xs[i] :: xs.drop (i + 1) := by simp
          have hlength : (xs.take i).length = i := List.length_take_of_le hlt.le
          rw [List.getElem?_eq_getElem hlt, List.eraseIdx_eq_take_drop_succ]
          conv => enter [2]; rw [hsplit]
          exact .item (hlength.symm ▸ hspelled)
        · rw [List.getElem?_eq_none hge, List.eraseIdx_of_length_le hge]
          exact .noItem hspelled hge
      · simp at h
    | _ => simp [withdraw?] at h
  · intro h
    cases h with
    | key hfirst => rw [withdraw?, Entries.get?_first hfirst, Entries.erase_first hfirst]
    | noKey hfresh => rw [withdraw?, Entries.get?_of_notMem hfresh, Entries.erase_of_notMem hfresh]
    | item hspelled =>
      simp [withdraw?, position?_eq_some_iff.mpr hspelled, List.eraseIdx_append_of_length_le]
    | noItem hspelled hbeyond =>
      simp [withdraw?, position?_eq_some_iff.mpr hspelled, hbeyond, List.eraseIdx_of_length_le]

/-- When an assignment succeeds. -/
theorem isSome_assign?_iff (new : Value) : (assign? step new v).isSome ↔ v.Takes step := by
  rw [Option.isSome_iff_exists]
  constructor
  · rintro ⟨w, h⟩
    cases assign?_eq_some_iff.mp h with
    | replacedKey => exact Or.inl ⟨_, rfl⟩
    | newKey => exact Or.inl ⟨_, rfl⟩
    | replacedItem hspelled => exact Or.inr ⟨_, _, rfl, hspelled, by simp⟩
    | newItem hspelled => exact Or.inr ⟨_, _, rfl, hspelled, le_rfl⟩
  · rintro (⟨es, rfl⟩ | ⟨xs, i, rfl, hspelled, hle⟩)
    · exact ⟨_, rfl⟩
    · rw [assign?, position?_eq_some_iff.mpr hspelled]
      rcases hle.lt_or_eq with hlt | rfl
      · exact ⟨_, if_pos hlt⟩
      · exact ⟨.sequence (xs ++ [new]), by simp⟩

/-- When a withdrawal succeeds. -/
theorem isSome_withdraw?_iff : (withdraw? step v).isSome ↔ v.Gives step := by
  constructor
  · intro h
    obtain ⟨⟨removed?, w⟩, h⟩ := Option.isSome_iff_exists.mp h
    cases withdraw?_eq_some_iff.mp h with
    | key => exact Or.inl ⟨_, rfl⟩
    | noKey => exact Or.inl ⟨_, rfl⟩
    | item hspelled => exact Or.inr ⟨_, _, rfl, hspelled⟩
    | noItem hspelled => exact Or.inr ⟨_, _, rfl, hspelled⟩
  · rintro (⟨es, rfl⟩ | ⟨xs, i, rfl, hspelled⟩)
    · rfl
    · rw [withdraw?, position?_eq_some_iff.mpr hspelled]
      rfl

/-- A withdrawal that takes nothing changes nothing. -/
theorem eq_of_withdraw?_none (h : withdraw? step v = some (none, w)) : w = v := by
  cases withdraw?_eq_some_iff.mp h with
  | noKey => rfl
  | noItem => rfl

/-- **An assignment where nothing stood** is undone by a withdrawal. -/
theorem withdraw?_of_assign? {rest : Value} (hnone : withdraw? step v = some (none, rest))
    (h : assign? step new v = some w) : withdraw? step w = some (some new, v) := by
  rw [withdraw?_eq_some_iff]
  cases withdraw?_eq_some_iff.mp hnone with
  | @noKey es hfresh =>
    obtain rfl := Option.some.inj h
    have hlast : Withdrawn step (.mapping (es ++ [(step, new)])) (some new) (.mapping (es ++ [])) :=
      .key hfresh
    rwa [List.append_nil, ← Entries.insert_of_notMem hfresh new] at hlast
  | @noItem xs i hspelled hbeyond =>
    cases assign?_eq_some_iff.mp h with
    | replacedItem hspelled' =>
      obtain rfl := hspelled.inj hspelled'
      simp at hbeyond
    | newItem hspelled' =>
      have hlast : Withdrawn step (.sequence (xs ++ [new])) (some new) (.sequence (xs ++ [])) :=
        .item hspelled'
      rwa [List.append_nil] at hlast

end Value

end ItemConditions
