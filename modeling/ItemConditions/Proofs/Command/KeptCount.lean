import ItemConditions.Proofs.Binary64.Order
import ItemConditions.Proofs.Command.Grammar

/-!
# Numbers of items that are kept

A removal names its number of items in decimal digits. Reading takes digits of every script, but
knows the value of ASCII ones only and counts all others as nothing; and writing stops short of
`2 ^ 64`. This module says which numbers come through both.

## Main definitions

* `Text.digitValue`, `Text.numberOf`: the value of decimal digits of every script

## Main results

* `Command.capped_ofNat_eq_self_iff`: which whole numbers are up to `2 ^ 64` once they are rounded
* `Command.ofNat_wholePart_countValue_iff`: which numbers of items are written as they are spelled
* `Command.removal_count_kept_iff`: the same for a line and what is written for it
-/

namespace ItemConditions

/-! ## Digits of every script -/

namespace Text

/-- **The value of a decimal digit** of some script: its place in the run of ten. -/
def digitValue (c : Char) : ℕ :=
  match digitZeros.find? fun first => first ≤ c.toNat && c.toNat < first + 10 with
  | some first => c.toNat - first
  | none => 0

/-- **The number that decimal digits denote**, whatever their scripts. -/
def numberOf (digits : Text) : ℕ := digits.foldl (fun n c => 10 * n + digitValue c) 0

/-- The run of the ASCII digits is the first one. -/
theorem digitValue_of_isDigit {c : Char} (h : c.isDigit) : digitValue c = c.toNat - '0'.toNat := by
  obtain ⟨hlow, hhigh⟩ : 0x30 ≤ c.toNat ∧ c.toNat ≤ 0x39 := Char.isDigit_iff_toNat.mp h
  have hfind : digitZeros.find? (fun first => first ≤ c.toNat && c.toNat < first + 10) = some 0x30 := by
    refine List.find?_cons_of_pos ?_
    simp only [Bool.and_eq_true, decide_eq_true_eq]
    omega
  rw [digitValue, hfind]
  rfl

theorem numberOf_eq {digits : Text} (h : digits.all Char.isDigit) :
    numberOf digits = Numeral.digitsValue 0 digits := by
  refine List.foldl_ext _ _ _ fun n c hc => ?_
  rw [digitValue_of_isDigit (List.all_eq_true.mp h c hc)]

end Text

namespace Command

open Binary64 (ofNat ofNat_mono)
open Placeholder (IsItem IsDigits IsCountOf countText countValue itemClause)

/-! ## Numbers up to the limit -/

theorem capped_eq_self_iff (x : Binary64) : capped x = x ↔ x.isFinite ∧ x.toRat ≤ 2 ^ 64 := by
  rw [capped]
  split_ifs with h
  · simp only [h, and_self]
  · simp only [h, iff_false]
    rintro rfl
    refine h ⟨by rw [ofNat_limit]; rfl, ?_⟩
    have hvalue : (Binary64.finite false 1087 0).toRat = 2 ^ 64 := magnitude_limit
    rw [ofNat_limit, hvalue]

/-- **The whole numbers that are up to `2 ^ 64` once they are rounded.** Those above it are rounded
to it as far as the middle between it and the next 64-bit number, the middle included. -/
theorem capped_ofNat_eq_self_iff (n : ℕ) : capped (ofNat n) = ofNat n ↔ n ≤ 2 ^ 64 + 2 ^ 11 := by
  have hmiddle : ofNat (2 ^ 64 + 2 ^ 11) = .finite false 1087 0 := by decide +kernel
  have hbehind : ofNat (2 ^ 64 + 2 ^ 11 + 1) = .finite false 1087 1 := by decide +kernel
  have hlimit : (Binary64.finite false 1087 0).toRat = 2 ^ 64 := magnitude_limit
  have hnext : 2 ^ 64 < (Binary64.finite false 1087 1).toRat := by
    have hsignificand : Binary64.significand 1087 1 = 2 ^ 52 + 1 := by decide
    have hpower : Binary64.power 1087 = 12 := by decide
    rw [Binary64.toRat, if_neg (by decide), Binary64.magnitude, hsignificand, hpower]
    norm_num
  rw [capped_eq_self_iff]
  constructor
  · rintro ⟨hfinite, hle⟩
    by_contra hgt
    have hmono := (ofNat_mono (not_le.mp hgt) hfinite).2
    rw [Nat.succ_eq_add_one, hbehind] at hmono
    exact (hnext.trans_le hmono).not_ge hle
  · intro hle
    have hmono := ofNat_mono hle (by rw [hmiddle]; rfl)
    rwa [hmiddle, hlimit] at hmono

theorem ofNat_zero_eq_iff (n : ℕ) : ofNat 0 = ofNat n ↔ n = 0 := by
  constructor
  · intro h
    by_contra hn
    obtain ⟨e, f, hone, hvalue⟩ := Binary64.ofNat_of_lt (show 1 < 2 ^ 53 by norm_num)
    have hzero : (ofNat 0).toRat = 0 := Binary64.magnitude_zero
    have hone' : (ofNat 1).toRat = 1 := by
      rw [hone, Nat.cast_one.symm, ← hvalue]
      rfl
    have hmono := (ofNat_mono (Nat.one_le_iff_ne_zero.mpr hn) (by rw [← h]; rfl)).2
    rw [← h, hzero, hone'] at hmono
    norm_num at hmono
  · rintro rfl
    rfl

/-! ## The number that is written -/

/-- **Which numbers of items are written as they are spelled**, up to rounding: those in ASCII digits
that do not lie beyond the limit, and nothing in any digits. -/
theorem ofNat_wholePart_countValue_iff (digits : Text) :
    ofNat ((countValue (some digits)).wholePart countLimit) = ofNat (Text.numberOf digits) ↔
      (digits.all Char.isDigit ∨ Text.numberOf digits = 0) ∧
        Text.numberOf digits ≤ 2 ^ 64 + 2 ^ 11 := by
  rw [ofNat_wholePart, countValue]
  by_cases hascii : digits.all Char.isDigit
  · rw [if_pos hascii, ← Text.numberOf_eq hascii, ofNat_asked_ofNat, capped_ofNat_eq_self_iff]
    simp only [hascii, true_or, true_and]
  · have hvalue : Binary64.zero.toRat = (0 : ℕ) := Binary64.magnitude_zero.trans Nat.cast_zero.symm
    have hnothing : asked .zero = 0 := by rw [asked_of_toRat rfl hvalue, Nat.zero_min]
    rw [if_neg hascii, hnothing, ofNat_zero_eq_iff]
    simp only [hascii, Bool.false_eq_true, false_or]
    omega

/-- A line that is read as the removal of items is a form with these items. -/
theorem exists_form_of_item? {l : Text} {m : ItemMatch} (h : (read l).condition.item? = some m) :
    ∃ blanks system count, Form.IsProper ⟨blanks, .removal system m count⟩ ∧
      Form.text ⟨blanks, .removal system m count⟩ = Text.trim l ∧
      (read l).condition = system.condition m := by
  cases hrecognize : recognize? (Text.trim l) with
  | none => simp [read_eq, hrecognize, Condition.item?] at h
  | some c =>
    obtain ⟨⟨blanks, body⟩, hproper, htext, rfl⟩ := recognize?_eq_some_iff.mp hrecognize
    have hread : (read l).condition = body.condition := by rw [read_eq, hrecognize]; rfl
    rw [hread] at h ⊢
    cases body with
    | removal system item count =>
      obtain rfl : item = m := by cases system <;> exact Option.some.inj h
      exact ⟨blanks, system, count, hproper, htext, rfl⟩
    | money number => simp [Body.condition, Condition.item?] at h
    | playerMeta key number => simp [Body.condition, Condition.item?] at h

/-- What stands in front of the item of a removal holds no comma. -/
theorem comma_notMem_front {blanks : Text} (h : ∀ c ∈ blanks, Text.isBlank c) :
    ',' ∉ start ++ (blanks ++ (removalStart ++ Placeholder.removalStart)) := by
  simp only [List.mem_append, not_or]
  refine ⟨by decide, fun hmem => ?_, by decide, by decide⟩
  exact absurd (h ',' hmem) (by decide)

/-- **When the number of items is kept.** A line is read as the removal of items and ends with a
number of them in decimal digits of any scripts. The line that is written names a number of items
too. The two are the same number, up to rounding, exactly if the digits are ASCII or denote nothing,
and the number is no further above `2 ^ 64` than rounding reaches. -/
theorem removal_count_kept_iff {l before digits : Text} {m : ItemMatch}
    (hitem : (read l).condition.item? = some m) (hdigits : IsDigits digits)
    (hl : Text.trim l = before ++ countText (some digits) ++ ['%']) :
    ∃ mark n, IsItem (read l).condition mark m ∧ write (read l) = removalLine mark m n ∧
      (ofNat n = ofNat (Text.numberOf digits) ↔
        (digits.all Char.isDigit ∨ Text.numberOf digits = 0) ∧
          Text.numberOf digits ≤ 2 ^ 64 + 2 ^ 11) := by
  obtain ⟨blanks, system, count, ⟨hblanks, -, hamount, hcount⟩, htext, hcondition⟩ :=
    exists_form_of_item? hitem
  have hmark : IsItem (read l).condition system.mark m := hcondition ▸ system.isItem m
  refine ⟨system.mark, _, hmark, write_of_isItem hmark, ?_⟩
  have hfront := hcount.append (comma_notMem_front hblanks)
  have hline : start ++ (blanks ++ (removalStart ++ Placeholder.removalStart))
      ++ itemClause system.mark m ++ countText count = before ++ countText (some digits) := by
    rw [← List.append_left_inj ['%'], ← hl, ← htext]
    simp [Form.text, spaced, Body.verb, Verb.start, Body.text]
  have hcount' : IsCountOf before (some digits) := hdigits
  obtain ⟨-, rfl⟩ := hfront.eq_of_append hcount' hline
  rw [hamount]
  exact ofNat_wholePart_countValue_iff digits

/-- The removal of rubies in so many digits. -/
def rubies (digits : Text) : Text :=
  "console: papi parse %player_name% %checkitem_amount_remove_".toList
    ++ "nbtstrings:NeigeItems..id=ruby".toList ++ countText (some digits) ++ ['%']

/-- The greatest number that is rounded to the limit. -/
theorem removal_count_kept_iff_middle :
    let digits := "18446744073709553664".toList
    let m : ItemMatch := ⟨[], "ruby".toList, ofNat (2 ^ 64), false⟩
    ∃ mark n, IsItem (read (rubies digits)).condition mark m ∧
      write (read (rubies digits)) = removalLine mark m n ∧
      ofNat n = ofNat 18446744073709553664 := by
  intro digits m
  have hitem : (read (rubies digits)).condition.item? = some m := by decide +kernel
  have hdigits : IsDigits digits := ⟨List.cons_ne_nil _ _, List.all_eq_true.mp (by decide)⟩
  have htrim : Text.trim (rubies digits) = rubies digits := by decide +kernel
  have hnumber : Text.numberOf digits = 18446744073709553664 := by decide +kernel
  obtain ⟨mark, n, hmark, hwrite, hkept⟩ := removal_count_kept_iff hitem hdigits htrim
  refine ⟨mark, n, hmark, hwrite, ?_⟩
  rw [← hnumber, hkept, hnumber]
  exact ⟨.inl (by decide), by norm_num⟩

/-- Numbers of items are changed: an Arabic three is written as zero, and a number far above
`2 ^ 64` as the limit. -/
theorem removal_counts_changed :
    let three := ['\u0663']
    let many := "99999999999999999999".toList
    ((read (rubies three)).condition.item?.isSome ∧ Text.numberOf three = 3 ∧
      write (read (rubies three)) = rubies ['0'] ∧ ofNat 0 ≠ ofNat 3) ∧
    (read (rubies many)).condition.item?.isSome ∧ Text.numberOf many = 99999999999999999999 ∧
      write (read (rubies many)) = rubies "18446744073709551615".toList ∧
      ofNat 18446744073709551615 ≠ ofNat 99999999999999999999 := by
  decide +kernel

end Command

end ItemConditions
