import ItemConditions.Binary64.Numeral
import ItemConditions.Text.Digit
import ItemConditions.Proofs.Binary64.Shortest
import ItemConditions.Proofs.Text.Cut
import ItemConditions.Proofs.Text.Trim

/-!
# Plain numerals read back

A finite number is written as digits with at most one point behind a minus sign or none, and such a
numeral is read as the number that it was written for. The words for the other numbers are no plain
numerals.

## Main definitions

* `Binary64.isNumeralChar`: the characters of numerals

## Main results

* `Numeral.unsigned?_positional`: the decimal that a positional numeral spells
* `Numeral.unsigned?_toPlain`, `Numeral.readPlain?_toPlain`: what is written is read back
* `Binary64.isNumeralChar_of_mem_toPlain`: the characters of a numeral
-/

namespace ItemConditions

namespace Numeral

/-! ## The value of digits -/

theorem digitsValue_append (n : ℕ) (s t : Text) :
    digitsValue n (s ++ t) = digitsValue (digitsValue n s) t := List.foldl_append

@[simp] theorem digitsValue_ofNat (n : ℕ) : digitsValue 0 (Text.ofNat n) = n :=
  Nat.ofDigitChars_ten_toDigits

theorem digitsValue_zeros (n k : ℕ) : digitsValue n (Text.repeated k '0') = 10 ^ k * n :=
  Nat.ofDigitChars_replicate_zero

theorem isDigit_of_mem_ofNat {n : ℕ} {c : Char} (h : c ∈ Text.ofNat n) : c.isDigit :=
  Nat.isDigit_of_mem_toDigits (by decide) (by decide) h

theorem ofNat_ne_nil (n : ℕ) : Text.ofNat n ≠ [] := Nat.toDigits_ne_nil

theorem isDigit_of_mem_zeros {k : ℕ} {c : Char} (h : c ∈ Text.repeated k '0') : c.isDigit := by
  rw [List.eq_of_mem_replicate h]
  rfl

/-! ## Reading digits -/

theorem unsigned?_whole {t : Text} (hne : t ≠ []) (h : ∀ c ∈ t, c.isDigit) :
    unsigned? t = some ⟨digitsValue 0 t, 0⟩ := by
  have htake : t.takeWhile Char.isDigit = t := List.takeWhile_eq_self_iff.mpr h
  have hdrop : t.dropWhile Char.isDigit = [] := List.dropWhile_eq_nil_iff.mpr h
  simp [unsigned?, htake, hdrop, hne]

/-- Digits with a point: those behind it are decimal places. -/
theorem unsigned?_point {whole places : Text} (hne : whole ++ places ≠ [])
    (hwhole : ∀ c ∈ whole, c.isDigit) (hplaces : ∀ c ∈ places, c.isDigit) :
    unsigned? (whole ++ '.' :: places)
      = some ⟨digitsValue 0 (whole ++ places), -places.length⟩ := by
  have htake := Text.takeWhile_append_cons hwhole (c := '.') rfl places
  have hdrop := Text.dropWhile_append_cons hwhole (c := '.') rfl places
  have hall : places.all Char.isDigit = true := List.all_eq_true.mpr hplaces
  have hsome : ¬ (whole = [] ∧ places = []) := fun h => hne (List.append_eq_nil_iff.mpr h)
  simp [unsigned?, htake, hdrop, hall, hsome, digitsValue_append]

/-- A numeral starts with a digit or a point. -/
theorem unsigned?_eq_none {c : Char} (hc : c.isDigit = false) (hpoint : c ≠ '.') (t : Text) :
    unsigned? (c :: t) = none := by
  have hdrop : (c :: t).dropWhile Char.isDigit = c :: t :=
    List.dropWhile_cons_of_neg (by simp [hc])
  simp [unsigned?, hdrop, hpoint]

/-! ## Positional numerals -/

theorem exists_positional_eq_cons (d : Decimal) :
    ∃ c t, Binary64.positional d = c :: t ∧ c.isDigit := by
  have hdigits (k : ℕ) (hk : 0 < k) :
      ∃ c t, (Text.ofNat d.digits).take k = c :: t ∧ c.isDigit := by
    obtain ⟨c, t, hct⟩ := List.exists_cons_of_ne_nil (ofNat_ne_nil d.digits)
    obtain ⟨k, rfl⟩ := Nat.exists_eq_add_of_lt hk
    refine ⟨c, t.take k, ?_, isDigit_of_mem_ofNat (hct ▸ List.mem_cons_self)⟩
    rw [hct, Nat.zero_add, List.take_succ_cons]
  unfold Binary64.positional
  split
  · obtain ⟨c, t, hct, hc⟩ := hdigits (Text.ofNat d.digits).length
      (List.length_pos_of_ne_nil (ofNat_ne_nil _))
    rw [List.take_length] at hct
    exact ⟨c, _, by rw [hct, List.cons_append], hc⟩
  · simp only
    split_ifs with h
    · obtain ⟨c, t, hct, hc⟩ := hdigits _ (Nat.sub_pos_of_lt h)
      exact ⟨c, _, by rw [hct, List.cons_append], hc⟩
    · exact ⟨'0', _, rfl, rfl⟩

/-- A positional numeral consists of digits and points. -/
theorem positional_chars {d : Decimal} {c : Char} (h : c ∈ Binary64.positional d) :
    c.isDigit ∨ c = '.' := by
  unfold Binary64.positional at h
  split at h
  · rcases List.mem_append.mp h with h | h
    · exact Or.inl (isDigit_of_mem_ofNat h)
    · exact Or.inl (isDigit_of_mem_zeros h)
  · simp only at h
    split_ifs at h
    · rcases List.mem_append.mp h with h | h
      · exact Or.inl (isDigit_of_mem_ofNat (List.mem_of_mem_take h))
      · rcases List.mem_cons.mp h with rfl | h
        · exact Or.inr rfl
        · exact Or.inl (isDigit_of_mem_ofNat (List.mem_of_mem_drop h))
    · simp only [List.mem_cons, List.mem_append] at h
      rcases h with rfl | rfl | h | h
      · exact Or.inl rfl
      · exact Or.inr rfl
      · exact Or.inl (isDigit_of_mem_zeros h)
      · exact Or.inl (isDigit_of_mem_ofNat h)

/-- **The decimal that a positional numeral spells** has the value of the one it was written for. -/
theorem unsigned?_positional (d : Decimal) :
    ∃ d', unsigned? (Binary64.positional d) = some d' ∧ d'.toRat = d.toRat := by
  have hdigit : ∀ c ∈ Text.ofNat d.digits, c.isDigit := fun _ => isDigit_of_mem_ofNat
  unfold Binary64.positional
  split
  · next zeros hexponent =>
    refine ⟨_, unsigned?_whole (by simp [ofNat_ne_nil]) ?_, ?_⟩
    · intro c hc
      rcases List.mem_append.mp hc with hc | hc
      · exact hdigit c hc
      · exact isDigit_of_mem_zeros hc
    · rw [digitsValue_append, digitsValue_ofNat, digitsValue_zeros, Decimal.toRat, Decimal.toRat,
        hexponent]
      push_cast
      simp [mul_comm]
  · next n hexponent =>
    simp only
    split_ifs with h
    · have hne : (Text.ofNat d.digits).take ((Text.ofNat d.digits).length - (n + 1))
          ++ (Text.ofNat d.digits).drop ((Text.ofNat d.digits).length - (n + 1)) ≠ [] := by
        rw [List.take_append_drop]
        exact ofNat_ne_nil _
      refine ⟨_, unsigned?_point hne (fun c hc => hdigit c (List.mem_of_mem_take hc))
        (fun c hc => hdigit c (List.mem_of_mem_drop hc)), ?_⟩
      rw [List.take_append_drop, digitsValue_ofNat, List.length_drop, Nat.sub_sub_self h.le,
        Decimal.toRat, Decimal.toRat, hexponent, Int.negSucc_eq]
      push_cast
      rfl
    · have hzero : ∀ c ∈ ['0'], c.isDigit := by
        intro c hc
        rw [List.mem_singleton.mp hc]
        rfl
      refine ⟨_, unsigned?_point (by simp) hzero ?_, ?_⟩
      · intro c hc
        rcases List.mem_append.mp hc with hc | hc
        · exact isDigit_of_mem_zeros hc
        · exact hdigit c hc
      · have hlength : (Text.repeated (n + 1 - (Text.ofNat d.digits).length) '0'
            ++ Text.ofNat d.digits).length = n + 1 := by
          rw [List.length_append, Text.repeated, List.length_replicate]
          omega
        have hvalue : digitsValue 0 (['0'] ++ (Text.repeated
            (n + 1 - (Text.ofNat d.digits).length) '0' ++ Text.ofNat d.digits)) = d.digits := by
          rw [digitsValue_append, digitsValue_append, show digitsValue 0 ['0'] = 0 from rfl,
            digitsValue_zeros, Nat.mul_zero, digitsValue_ofNat]
        rw [hlength, hvalue, Decimal.toRat, Decimal.toRat, hexponent, Int.negSucc_eq]
        push_cast
        rfl

/-! ## Numerals of 64-bit numbers -/

theorem unsigned?_shortest (negative : Bool) (e : Fin 2047) (f : Fin Binary64.fractions) :
    (unsigned? (Binary64.positional (Binary64.shortest .upper e f))).map
      (Binary64.ofDecimal negative) = some (.finite negative e f) := by
  obtain ⟨d, hd, hvalue⟩ := unsigned?_positional (Binary64.shortest .upper e f)
  rw [hd, Option.map_some, Binary64.ofDecimal_congr negative hvalue, Binary64.ofDecimal_shortest]

/-- **A numeral without a sign** is read back; the other numbers have none. -/
theorem unsigned?_toPlain (x : Binary64) :
    (unsigned? x.toPlain).map (Binary64.ofDecimal false)
      = if x.isFinite ∧ x.isNegative = false then some x else none := by
  cases x with
  | nan => rfl
  | infinity negative => cases negative <;> rfl
  | finite negative e f =>
    cases negative with
    | true => simp [Binary64.toPlain, Binary64.signText, Binary64.isNegative, unsigned?_eq_none]
    | false =>
      simpa [Binary64.toPlain, Binary64.signText, Binary64.isFinite, Binary64.isNegative]
        using unsigned?_shortest false e f

theorem splitSign_cons {c : Char} (hplus : c ≠ '+') (hminus : c ≠ '-') (t : Text) :
    splitSign (c :: t) = (false, c :: t) := by
  unfold splitSign
  split <;> simp_all

/-- **A plain numeral** is read back; an infinity and not-a-number have none. -/
theorem readPlain?_toPlain (x : Binary64) :
    readPlain? x.toPlain = if x.isFinite then some x else none := by
  cases x with
  | nan => rfl
  | infinity negative => cases negative <;> rfl
  | finite negative e f =>
    cases negative with
    | true => exact unsigned?_shortest true e f
    | false =>
      obtain ⟨c, t, hct, hc⟩ := exists_positional_eq_cons (Binary64.shortest .upper e f)
      have hsign : splitSign (c :: t) = (false, c :: t) :=
        splitSign_cons (by rintro rfl; simp at hc) (by rintro rfl; simp at hc) t
      have hread := unsigned?_shortest false e f
      rw [hct] at hread
      simpa [readPlain?, Binary64.toPlain, Binary64.signText, Binary64.isFinite, hct, hsign]
        using hread

/-- Digits alone carry no sign. -/
theorem splitSign_of_digits {t : Text} (h : ∀ c ∈ t, Text.isDecimalDigit c) :
    splitSign t = (false, t) := by
  have hsign : Text.isDecimalDigit '-' = false ∧ Text.isDecimalDigit '+' = false := by decide
  unfold splitSign
  split <;> first | rfl | simp [hsign] at h

end Numeral

namespace Binary64

/-- **The characters of numerals**: digits, a point, a sign, and the letters of the words. -/
def isNumeralChar (c : Char) : Bool := c.isDigit || ".-Nainf".toList.contains c

theorem isNumeralChar_of_mem_signText {negative : Bool} {c : Char} (h : c ∈ signText negative) :
    isNumeralChar c := by
  cases negative with
  | false => simp [signText] at h
  | true =>
    obtain rfl : c = '-' := by simpa [signText] using h
    rfl

theorem isNumeralChar_of_mem_toPlain {x : Binary64} {c : Char} (h : c ∈ x.toPlain) :
    isNumeralChar c := by
  cases x with
  | nan =>
    have hword : "NaN".toList.all isNumeralChar = true := rfl
    exact List.all_eq_true.mp hword c h
  | infinity negative =>
    rcases List.mem_append.mp h with h | h
    · exact isNumeralChar_of_mem_signText h
    · have hword : "inf".toList.all isNumeralChar = true := rfl
      exact List.all_eq_true.mp hword c h
  | finite negative e f =>
    rcases List.mem_append.mp h with h | h
    · exact isNumeralChar_of_mem_signText h
    · rcases Numeral.positional_chars h with h | rfl
      · rw [isNumeralChar, h, Bool.true_or]
      · rfl

theorem toPlain_ne_nil (x : Binary64) : x.toPlain ≠ [] := by
  cases x with
  | nan => decide
  | infinity negative => cases negative <;> decide
  | finite negative e f =>
    obtain ⟨c, t, hct, -⟩ := Numeral.exists_positional_eq_cons (shortest .upper e f)
    simp [toPlain, hct]

theorem isBlank_of_mem_toPlain {x : Binary64} {c : Char} (h : c ∈ x.toPlain) :
    Text.isBlank c = false := by
  rcases Bool.or_eq_true_iff.mp (isNumeralChar_of_mem_toPlain h) with h | h
  · exact Text.isBlank_of_isDigit h
  · have hmarks : (".-Nainf".toList.all fun c => !Text.isBlank c) = true := rfl
    simpa using List.all_eq_true.mp hmarks c (List.contains_iff_mem.mp h)

end Binary64

end ItemConditions
