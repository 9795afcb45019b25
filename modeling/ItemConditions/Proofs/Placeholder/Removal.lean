import ItemConditions.Proofs.Binary64.Spelling
import ItemConditions.Proofs.Placeholder.Classification
import Mathlib.Data.List.DropRight

/-!
# Removals and what they stand for

The removal of an item carries a number of items behind its last mark, or none. It stands for the
item again, and whatever else a removal stands for is an unknown quantity.

## Main definitions

* `Placeholder.countText`, `Placeholder.countValue`: the number of items, spelled and read
* `Placeholder.IsCountOf`: what a text can have as its number of items

## Main results

* `Placeholder.splitCount_eq`, `Placeholder.exists_count`: the number of items is split off in one
  way
* `Placeholder.classifyRemoval_eq`: a removal stands for what its check stands for
* `Placeholder.classifyRemoval_cases`: a removal stands for an item or an unknown quantity
-/

namespace ItemConditions

namespace Text

theorem replaceFirst_append {old : Text} (hold : old ≠ []) (new t : Text) :
    replaceFirst old new (old ++ t) = new ++ t := by
  obtain ⟨c, r, rfl⟩ := List.exists_cons_of_ne_nil hold
  have hcut : cut? (c :: r) (c :: r ++ t) = some ([], t) := by
    rw [List.cons_append, cut?, ← List.cons_append, isPrefixOf?_append]
  rw [replaceFirst, hcut]
  rfl

end Text

namespace Placeholder

/-! ## The number of items -/

/-- Decimal digits of any script, at least one. -/
def IsDigits (t : Text) : Prop := t ≠ [] ∧ ∀ c ∈ t, Text.isDecimalDigit c

/-- The text of a number of items: none, or digits behind the mark. -/
def countText : Option Text → Text
  | none => []
  | some digits => countMark ++ digits

/-- **The number of items that is spelled.** Digits that are not all ASCII count as zero. -/
def countValue : Option Text → Binary64
  | none => .zero
  | some digits =>
    if digits.all Char.isDigit then .ofNat (Numeral.digitsValue 0 digits) else .zero

/-- **What a text can have as its number of items**: digits, or none if it does not end with a
number already. -/
def IsCountOf (body : Text) : Option Text → Prop
  | none => ∀ before digits, IsDigits digits → body ≠ before ++ countText (some digits)
  | some digits => IsDigits digits

variable {body digits : Text} {count : Option Text}

theorem isDigits_ofNat (n : ℕ) : IsDigits (Text.ofNat n) :=
  ⟨Numeral.ofNat_ne_nil n, fun _ hc =>
    Text.isDecimalDigit_of_isDigit (Numeral.isDigit_of_mem_ofNat hc)⟩

@[simp] theorem countValue_ofNat (n : ℕ) : countValue (some (Text.ofNat n)) = .ofNat n := by
  have hall : (Text.ofNat n).all Char.isDigit = true :=
    List.all_eq_true.mpr fun _ => Numeral.isDigit_of_mem_ofNat
  rw [countValue, if_pos hall, Numeral.digitsValue_ofNat]

theorem exists_ofNat_countValue (count : Option Text) : ∃ n, countValue count = .ofNat n := by
  cases count with
  | none => exact ⟨0, rfl⟩
  | some digits =>
    rw [countValue]
    split_ifs
    · exact ⟨_, rfl⟩
    · exact ⟨0, rfl⟩

/-- Digits are read with one rounding if they are all ASCII, and make no numeral otherwise. -/
theorem readPlain?_digits (h : IsDigits digits) :
    (Numeral.readPlain? digits).getD .zero = countValue (some digits) := by
  have hread : Numeral.readPlain? digits
      = (Numeral.unsigned? digits).map (Binary64.ofDecimal false) := by
    rw [Numeral.readPlain?, Numeral.splitSign_of_digits h.2]
  rw [hread, countValue]
  split_ifs with hascii
  · rw [Numeral.unsigned?_whole h.1 (List.all_eq_true.mp hascii)]
    simp [Binary64.ofDecimal, Binary64.ofNat]
  · have hnone : ¬ Numeral.IsUnsigned digits := by
      intro hunsigned
      refine hascii (List.all_eq_true.mpr fun c hc => (hunsigned.1 c hc).resolve_right ?_)
      rintro rfl
      exact absurd (h.2 '.' hc) (by decide)
    rw [Numeral.map_unsigned?, if_neg hnone, Option.getD_none]

/-- The number of items is split off, since the mark in front of its digits ends with none. -/
theorem splitCount_eq (h : IsCountOf body count) :
    splitCount (body ++ countText count) = (body, countValue count) := by
  cases count with
  | none =>
    rw [countText, List.append_nil]
    simp only [splitCount]
    split_ifs with hdigits
    · rfl
    · split
      · next before hbefore =>
        set digits := (body.reverse.takeWhile Text.isDecimalDigit).reverse
        have hall : ∀ c ∈ digits, Text.isDecimalDigit c := fun c hc =>
          List.mem_takeWhile_imp (List.mem_reverse.mp hc)
        have hsuffix : digits <:+ body := by
          have hprefix := List.takeWhile_prefix (l := body.reverse) Text.isDecimalDigit
          rw [← List.reverse_suffix, List.reverse_reverse] at hprefix
          exact hprefix
        obtain ⟨r, hr⟩ := hsuffix
        refine absurd ?_ (h before digits ⟨hdigits, hall⟩)
        rw [← hr, List.length_append, Nat.add_sub_cancel, List.take_left] at hbefore
        rw [countText, ← List.append_assoc, ← Text.eq_append_of_isSuffixOf? hbefore, hr]
      · rfl
  | some digits =>
    have hmark : countMark = ",amt".toList ++ [':'] := rfl
    have hall : ∀ c ∈ digits.reverse, Text.isDecimalDigit c := fun c hc =>
      h.2 c (List.mem_reverse.mp hc)
    have hdigits : ((body ++ countMark ++ digits).reverse.takeWhile
        Text.isDecimalDigit).reverse = digits := by
      rw [hmark, ← List.append_assoc, List.reverse_append, List.reverse_concat,
        Text.takeWhile_append_cons hall rfl, List.reverse_reverse]
    have hbody : (body ++ countMark ++ digits).take
        ((body ++ countMark ++ digits).length - digits.length) = body ++ countMark := by
      rw [List.length_append, Nat.add_sub_cancel, List.take_left]
    rw [countText, ← List.append_assoc]
    simp only [splitCount, hdigits, hbody, h.1, Text.isSuffixOf?_append, readPlain?_digits h,
      ↓reduceIte]

/-- **Every text is one with a number of items**, or without. -/
theorem exists_count (t : Text) :
    ∃ body count, IsCountOf body count ∧ t = body ++ countText count := by
  by_cases h : ∃ before digits, IsDigits digits ∧ t = before ++ countText (some digits)
  · obtain ⟨before, digits, hdigits, rfl⟩ := h
    exact ⟨before, some digits, hdigits, rfl⟩
  · refine ⟨t, none, fun before digits hdigits ht => h ⟨before, digits, hdigits, ht⟩, ?_⟩
    rw [countText, List.append_nil]

/-- What stands in front does not matter if it holds no comma: the mark starts with one. -/
theorem IsCountOf.append {s : Text} (hs : ',' ∉ s) (h : IsCountOf body count) :
    IsCountOf (s ++ body) count := by
  cases count with
  | none =>
    intro before digits hdigits heq
    have hmark : countText (some digits) = ',' :: ("amt:".toList ++ digits) := rfl
    obtain ⟨r, rfl⟩ : s <+: before := by
      rw [hmark] at heq
      exact Text.prefix_of_prefix_append hs ⟨body, heq⟩
    rw [List.append_assoc] at heq
    exact h r digits hdigits (List.append_cancel_left heq)
  | some digits => exact h

theorem percent_notMem_countText (h : IsCountOf body count) : '%' ∉ countText count := by
  cases count with
  | none => exact List.not_mem_nil
  | some digits =>
    intro hmem
    rcases List.mem_append.mp hmem with hmem | hmem
    · exact absurd hmem (by decide)
    · exact absurd (h.2 '%' hmem) (by decide)

/-! ## Removals -/

theorem itemClause_ne_nil (mark : Text) (m : ItemMatch) : itemClause mark m ≠ [] := by
  have hname : nameMark ≠ [] := by decide
  have htag : tagMark ≠ [] := by decide
  rw [itemClause]
  split_ifs <;> simp [hname, htag]

theorem percent_notMem_itemClause {c : Condition} {mark : Text} {m : ItemMatch}
    (h : IsItem c mark m) :
    '%' ∉ itemClause mark m ↔ '%' ∉ m.key ∧ (m.useName → '%' ∉ m.name) := by
  have hmark : '%' ∉ mark := by cases h <;> decide
  have hname : '%' ∉ nameMark := by decide
  have htag : '%' ∉ tagMark ∧ '%' ∉ tagSeparator := by decide
  cases huse : m.useName <;> simp [itemClause, huse, hmark, hname, htag, and_comm]

theorem classify_check {b : Text} (h : '%' ∉ b) :
    classify (checkStart ++ b) = (itemClause? b).getD (.unknown (checkStart ++ b) .zero) := by
  have hpercent : '%' ∉ checkStart ++ b := by
    rw [List.mem_append, not_or]
    exact ⟨by decide, h⟩
  rw [classify, stripPercent_eq_self hpercent, findSome?_rules_check]

/-- **A removal stands for what its check stands for**, with the number of items that is spelled
behind it. -/
theorem classifyRemoval_eq (h : '%' ∉ body) (hcount : IsCountOf body count) :
    classifyRemoval (removalStart ++ (body ++ countText count))
      = ((itemClause? body).getD (.unknown (checkStart ++ body) .zero)).setAmount
          (countValue count) := by
  rw [classifyRemoval, ← List.append_assoc, splitCount_eq (hcount.append (by decide))]
  simp only
  rw [Text.replaceFirst_append (by decide), classify_check h]

/-- **A removal stands for an item or an unknown quantity.** The item's fields can be told apart,
and its amount is the number of items. -/
theorem classifyRemoval_cases {item : Text} (h : '%' ∉ item) :
    (classifyRemoval (removalStart ++ item)).kind = .unknown ∨
      ∃ mark m count, IsItem (classifyRemoval (removalStart ++ item)) mark m ∧ m.IsClear ∧
        m.amount = countValue count ∧ IsCountOf (itemClause mark m) count ∧
        item = itemClause mark m ++ countText count := by
  obtain ⟨body, count, hcount, rfl⟩ := exists_count item
  have hbody : '%' ∉ body := fun hmem => h (List.mem_append_left _ hmem)
  rw [classifyRemoval_eq hbody hcount]
  cases hitem : itemClause? body with
  | none => exact Or.inl rfl
  | some c =>
    obtain ⟨mark, m, hc, hm, -, rfl⟩ := isItem_of_itemClause? hitem
    exact Or.inr ⟨mark, _, count, hc.setAmount _, hm, rfl, hcount, rfl⟩

end Placeholder

end ItemConditions
