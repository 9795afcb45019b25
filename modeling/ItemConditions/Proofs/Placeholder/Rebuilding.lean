import ItemConditions.Proofs.Placeholder.Removal

/-!
# Placeholders that are rebuilt

What a placeholder stands for is written as the placeholder again. An unknown quantity keeps every
character; a known one is written between two percent signs, of which the text that was read may
lack either. A removal keeps what stands in front of its number of items.

## Main definitions

* `Placeholder.IsInner`: a text without one percent sign at each end, where there is one

## Main results

* `Placeholder.isInner_iff`: there is one such text
* `Placeholder.rebuilt_of_unknown`, `Placeholder.rebuilt_of_known`: how the two kinds of quantities
  are written
* `Placeholder.placeholders_rebuilt`: nothing is lost between reading and writing
-/

namespace ItemConditions.Placeholder

variable {expression inner : Text}

/-! ## Percent signs -/

/-- **A text without one percent sign at each end**, where there is one. A single sign that is the
whole text is the one at its start. -/
def IsInner (expression inner : Text) : Prop :=
  ∃ opening closing, expression = opening ++ (inner ++ closing) ∧
    (opening = ['%'] ∨ opening = [] ∧ ¬ ['%'] <+: expression) ∧
    (closing = ['%'] ∨ closing = [] ∧ ¬ ['%'] <:+ inner)

/-- There is one such text. -/
theorem isInner_iff : IsInner expression inner ↔ stripPercent expression = inner := by
  simp only [stripPercent, Text.getD_isSuffixOf?_eq_iff, Text.getD_isPrefixOf?_eq_iff, IsInner]
  constructor
  · rintro ⟨opening, closing, h, hopening, hclosing⟩
    exact ⟨closing, ⟨opening, h, hopening⟩, hclosing⟩
  · rintro ⟨closing, ⟨opening, h, hopening⟩, hclosing⟩
    exact ⟨opening, closing, h, hopening, hclosing⟩

/-! ## Quantities -/

/-- **An unknown quantity** is written as it was read. -/
theorem rebuilt_of_unknown (h : (classify expression).kind = .unknown) :
    expression? (classify expression) = some expression := by
  rw [classify_of_kind h]
  rfl

/-- **A known quantity** is written between percent signs. -/
theorem rebuilt_of_known (h : (classify expression).kind ≠ .unknown)
    (hinner : IsInner expression inner) :
    expression? (classify expression) = some ('%' :: inner ++ ['%']) := by
  obtain rfl := isInner_iff.mp hinner
  cases hrule : rules.findSome? fun rule => rule.2 (stripPercent expression) with
  | none =>
    rw [classify, hrule] at h
    exact absurd rfl h
  | some c =>
    rw [classify, hrule]
    exact (expression?_of_rules hrule).1

/-- What was written for a placeholder stands for the same. -/
theorem classify_rebuilt {rebuilt : Text} (h : expression? (classify expression) = some rebuilt) :
    classify rebuilt = classify expression := by
  have hread := classify_of_isFaithful h (isFaithful_classify expression)
  rwa [← amount_classify expression, Condition.setAmount_amount] at hread

/-! ## All placeholders -/

/-- **Nothing is lost between reading and writing.** The placeholder of what a text stands for is
the text itself for an unknown quantity, and its inner text between percent signs for a known one;
it stands for the same again. The item clause of what a removal stands for, if that is a known
quantity, is the text in front of its number of items. -/
theorem placeholders_rebuilt :
    (∀ expression, ∃ rebuilt, expression? (classify expression) = some rebuilt ∧
      ((classify expression).kind = .unknown → rebuilt = expression) ∧
      ((classify expression).kind ≠ .unknown →
        ∃ inner, IsInner expression inner ∧ rebuilt = '%' :: inner ++ ['%']) ∧
      classify rebuilt = classify expression) ∧
    ∀ item, '%' ∉ item → (classifyRemoval (removalStart ++ item)).kind ≠ .unknown →
      ∃ mark m count, IsItem (classifyRemoval (removalStart ++ item)) mark m ∧
        item = itemClause mark m ++ countText count ∧ IsCountOf (itemClause mark m) count := by
  refine ⟨fun expression => ?_, fun item hitem hkind => ?_⟩
  · by_cases hkind : (classify expression).kind = .unknown
    · have h := rebuilt_of_unknown hkind
      exact ⟨expression, h, fun _ => rfl, fun hknown => absurd hkind hknown, classify_rebuilt h⟩
    · have hinner : IsInner expression (stripPercent expression) := isInner_iff.mpr rfl
      have h := rebuilt_of_known hkind hinner
      exact ⟨_, h, fun hunknown => absurd hunknown hkind, fun _ => ⟨_, hinner, rfl⟩,
        classify_rebuilt h⟩
  · obtain hunknown | ⟨mark, m, count, h, -, -, hcount, rfl⟩ := classifyRemoval_cases hitem
    · exact absurd hunknown hkind
    · exact ⟨mark, m, count, h, rfl, hcount⟩

/-- A name with a mark and digits in it, and two numbers of items, of which the last one counts. -/
theorem placeholders_rebuilt_counted :
    let item := "nameequals:a,amt:1,nbtstrings:NeigeItems..id=b,amt:2,amt:3".toList
    '%' ∉ item ∧ (classifyRemoval (removalStart ++ item)).kind ≠ .unknown ∧
      ∃ mark m count, IsItem (classifyRemoval (removalStart ++ item)) mark m ∧
        item = itemClause mark m ++ countText count ∧ IsCountOf (itemClause mark m) count := by
  intro item
  have hkind : (classifyRemoval (removalStart ++ item)).kind ≠ .unknown := by decide
  exact ⟨by decide, hkind, placeholders_rebuilt.2 item (by decide) hkind⟩

end ItemConditions.Placeholder
