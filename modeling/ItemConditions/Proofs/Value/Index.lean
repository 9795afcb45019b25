import ItemConditions.Value.Access
import ItemConditions.Proofs.Binary64.Numeral

/-!
# Indices of sequences

A strict index is the decimal numeral of a number, so an item of a sequence is reached by one step
only. A lenient index may be spelled in other ways, but a step that is both means one number.

## Main results

* `Text.ofNat_digitsValue`: digits without a leading zero are the numeral of their value
* `Value.index?_eq_some_iff`: the strict indices are the numerals
* `Value.position?_eq_of_index?`: a strict index is a lenient one below the limit
-/

namespace ItemConditions

namespace Text

theorem exists_digitChar {c : Char} (h : c.isDigit) : ∃ d < 10, c = Nat.digitChar d := by
  obtain ⟨hlow, hhigh⟩ : 48 ≤ c.toNat ∧ c.toNat ≤ 57 := Char.isDigit_iff_toNat.mp h
  refine ⟨c.toNat - 48, by omega, Char.toNat_inj.mp ?_⟩
  rw [Nat.toNat_digitChar_of_lt_ten (by omega)]
  omega

theorem digitsValue_concat (t : Text) {d : ℕ} (hd : d < 10) :
    Numeral.digitsValue 0 (t ++ [Nat.digitChar d]) = 10 * Numeral.digitsValue 0 t + d := by
  rw [Numeral.digitsValue_append]
  exact congrArg _ (Nat.toNat_digitChar_sub_48_of_lt_ten hd)

/-- **Digits without a leading zero** are the numeral of their value. -/
theorem ofNat_digitsValue {t : Text} (hne : t ≠ []) (hdigits : ∀ c ∈ t, c.isDigit)
    (hzero : t.head? = some '0' → t.length = 1) : ofNat (Numeral.digitsValue 0 t) = t := by
  induction t using List.reverseRecOn with
  | nil => exact absurd rfl hne
  | append_singleton r c ih =>
    obtain ⟨d, hd, rfl⟩ := exists_digitChar (hdigits c (by simp))
    rw [digitsValue_concat r hd]
    rcases eq_or_ne r [] with rfl | hr
    · have hvalue : 10 * Numeral.digitsValue 0 [] + d = d := Nat.zero_add d
      rw [hvalue]
      exact Nat.toDigits_of_lt_base hd
    · have hhead : r.head? ≠ some '0' := by
        intro h
        have hlength := hzero (by rw [List.head?_append_of_ne_nil _ hr, h])
        simp [hr] at hlength
      have hprefix := ih hr (fun c hc => hdigits c (List.mem_append_left _ hc))
        fun h => absurd h hhead
      have hpos : 0 < Numeral.digitsValue 0 r := by
        refine Nat.pos_of_ne_zero fun hvalue => hhead ?_
        rw [← hprefix, hvalue]
        rfl
      rw [ofNat, ← Nat.toDigits_append_toDigits (by decide) hpos hd,
        Nat.toDigits_of_lt_base hd]
      exact congrArg (· ++ _) hprefix

/-- A numeral that starts with a zero is that of zero. -/
theorem length_ofNat_of_head? {n : ℕ} (h : (ofNat n).head? = some '0') : (ofNat n).length = 1 := by
  induction n using Nat.strongRecOn with
  | ind n ih =>
    rcases Nat.lt_or_ge n 10 with hn | hn
    · rw [ofNat, Nat.toDigits_of_lt_base hn, List.length_singleton]
    · have hsplit : ofNat n = ofNat (n / 10) ++ [Nat.digitChar (n % 10)] :=
        Nat.toDigits_of_base_le (by decide) hn
      rw [hsplit, List.head?_append_of_ne_nil _ (Numeral.ofNat_ne_nil _)] at h
      have hlength := ih (n / 10) (by omega) h
      obtain ⟨c, hc⟩ := List.length_eq_one_iff.mp hlength
      obtain rfl : c = '0' := by simpa [hc] using h
      have hvalue := Numeral.digitsValue_ofNat (n / 10)
      rw [hc] at hvalue
      have hzero : 0 = n / 10 := hvalue
      omega

theorem toNat?_eq_some_iff {t : Text} {n : ℕ} : toNat? t = some n ↔
    (t ≠ [] ∧ ∀ c ∈ t, c.isDigit) ∧ Numeral.digitsValue 0 t = n := by
  rw [toNat?]
  split_ifs with h
  · rw [List.all_eq_true] at h
    exact ⟨fun hn => ⟨h, Option.some.inj hn⟩, fun hn => congrArg some hn.2⟩
  · rw [List.all_eq_true] at h
    simp [h]

end Text

namespace Value

/-- **The strict indices are the numerals.** -/
theorem index?_eq_some_iff {t : Text} {i : ℕ} : index? t = some i ↔ t = Text.ofNat i := by
  rw [index?]
  constructor
  · intro h
    split_ifs at h with hzero
    obtain ⟨⟨hne, hdigits⟩, rfl⟩ := Text.toNat?_eq_some_iff.mp h
    refine (Text.ofNat_digitsValue hne hdigits fun hhead => ?_).symm
    by_contra hlength
    exact hzero ⟨hhead, hlength⟩
  · rintro rfl
    have hdigits : ∀ c ∈ Text.ofNat i, c.isDigit := fun _ => Numeral.isDigit_of_mem_ofNat
    rw [if_neg fun h => h.2 (Text.length_ofNat_of_head? h.1), Text.toNat?_eq_some_iff]
    exact ⟨⟨Numeral.ofNat_ne_nil i, hdigits⟩, Numeral.digitsValue_ofNat i⟩

@[simp] theorem index?_ofNat (i : ℕ) : index? (Text.ofNat i) = some i :=
  index?_eq_some_iff.mpr rfl

@[simp] theorem setChild_ofNat (i : ℕ) (new : Value) (xs : List Value) :
    setChild (Text.ofNat i) new (.sequence xs) = .sequence (xs.set i new) := by
  simp [setChild]

/-- Two steps with one strict index are the same. -/
theorem eq_of_index?_eq {s t : Text} {i : ℕ} (hs : index? s = some i) (ht : index? t = some i) :
    s = t := by
  rw [index?_eq_some_iff.mp hs, index?_eq_some_iff.mp ht]

/-- **A strict index is a lenient one**, if it is below the limit. -/
theorem position?_eq_of_index? {t : Text} {i : ℕ} (h : index? t = some i) :
    position? t = if i < indexLimit then some i else none := by
  obtain rfl := index?_eq_some_iff.mp h
  have hdigits : digits? (Text.ofNat i) = if i < indexLimit then some i else none := by
    have hvalue : Text.toNat? (Text.ofNat i) = some i := Text.toNat?_eq_some_iff.mpr
      ⟨⟨Numeral.ofNat_ne_nil i, fun _ => Numeral.isDigit_of_mem_ofNat⟩, Numeral.digitsValue_ofNat i⟩
    simp [digits?, hvalue, Option.filter]
  rw [← hdigits]
  unfold position?
  split
  · next t ht =>
    have hplus : '+' ∈ Text.ofNat i := by simp [ht]
    exact absurd (Numeral.isDigit_of_mem_ofNat hplus) (by decide)
  · rfl

end Value

end ItemConditions
