import ItemConditions.Condition
import Mathlib.Tactic

/-!
# Conditions and their amounts

What setting the amount of a condition leaves alone, and when two conditions are equal with their
amounts compared as numbers.

## Main results

* `Condition.setAmount_amount`, `Condition.setAmount_setAmount`: the laws of setting the amount
* `Condition.setAmount_eq_of_same`, `Condition.equals_amount_of_same`: equal conditions differ at
  most in how their amounts are spelled
* `Condition.same_self`: a condition with a number equals itself
-/

namespace ItemConditions

theorem Binary64.ne_nan_of_isFinite {x : Binary64} (h : x.isFinite) : x ≠ .nan := by
  rintro rfl
  exact absurd h (by decide)

namespace Condition

@[simp] theorem setAmount_setAmount (c : Condition) (a b : Binary64) :
    (c.setAmount a).setAmount b = c.setAmount b := by
  cases c <;> rfl

@[simp] theorem setAmount_amount (c : Condition) : c.setAmount c.amount = c := by
  cases c <;> rfl

theorem amount_setAmount {c : Condition} (h : c.isStructured) (a : Binary64) :
    (c.setAmount a).amount = a := by
  cases c <;> first | rfl | simp [isStructured] at h

@[simp] theorem isStructured_setAmount (c : Condition) (a : Binary64) :
    (c.setAmount a).isStructured = c.isStructured := by
  cases c <;> rfl

/-- Kept text has no amount to set. -/
theorem setAmount_of_raw {c : Condition} (h : c.isStructured = false) (a : Binary64) :
    c.setAmount a = c := by
  cases c <;> first | rfl | simp [isStructured] at h

theorem amount_of_raw {c : Condition} (h : c.isStructured = false) : c.amount = .zero := by
  cases c <;> first | rfl | simp [isStructured] at h

/-- **Equal conditions** differ at most in their amounts, and only in the signs of zeros. -/
theorem setAmount_eq_of_same {c d : Condition} (h : c.same d) :
    c.setAmount .zero = d.setAmount .zero := by
  cases c <;> cases d <;> simp_all [same, ItemMatch.same, setAmount]

/-- Equal conditions have equal amounts. -/
theorem equals_amount_of_same {c d : Condition} (h : c.same d) : c.amount.equals d.amount := by
  have hzero : Binary64.zero.equals .zero = true := rfl
  cases c <;> cases d <;> simp_all [same, ItemMatch.same, amount]

/-- A condition equals itself unless its amount is not a number. -/
theorem same_self {c : Condition} (h : c.amount ≠ .nan) : c.same c := by
  have hequals := (Binary64.equals_self_iff c.amount).mpr h
  cases c <;> simp_all [same, ItemMatch.same, amount]

end Condition

end ItemConditions
