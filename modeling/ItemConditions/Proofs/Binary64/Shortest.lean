import ItemConditions.Binary64.Shortest
import ItemConditions.Proofs.Binary64.Value

/-!
# Shortest decimals round back

The decimal that is written for a number rounds to that number. For a decimal that the search
accepts this is what the search tests; the full expansion has the number's own value, and zeros at
the end of the digits do not change the value.

## Main definitions

* `Decimal.toRat`: the value of a decimal

## Main results

* `Binary64.ofDecimal_congr`: decimals of one value are rounded alike
* `Binary64.ofDecimal_shortest`: the shortest decimal rounds back
-/

namespace ItemConditions

/-- **The value of a decimal.** -/
def Decimal.toRat (d : Decimal) : ℚ := d.digits * 10 ^ d.exponent

namespace Binary64

theorem powerOfTen_eq (n : ℕ) : powerOfTen n = 10 ^ n := rfl

theorem decimal_quotient (d : Decimal) :
    ((d.digits * powerOfTen d.exponent.toNat : ℕ) : ℚ) / (powerOfTen (-d.exponent).toNat : ℕ)
      = d.toRat := by
  rw [Decimal.toRat, powerOfTen_eq, powerOfTen_eq]
  push_cast
  rcases le_total 0 d.exponent with h | h
  · obtain ⟨n, hn⟩ := Int.eq_ofNat_of_zero_le h
    simp [hn]
  · obtain ⟨n, hn⟩ := Int.eq_ofNat_of_zero_le (Int.neg_nonneg.mpr h)
    rw [show d.exponent = -n by omega]
    simp [div_eq_mul_inv]

theorem powerOfTen_ne_zero (n : ℕ) : powerOfTen n ≠ 0 := by
  rw [powerOfTen_eq]
  positivity

/-- **Decimals of one value are rounded alike.** -/
theorem ofDecimal_congr (negative : Bool) {d d' : Decimal} (h : d.toRat = d'.toRat) :
    ofDecimal negative d = ofDecimal negative d' := by
  have hden (n : ℕ) : (powerOfTen n : ℚ) ≠ 0 := by exact_mod_cast powerOfTen_ne_zero n
  rw [← decimal_quotient, ← decimal_quotient, div_eq_div_iff (hden _) (hden _)] at h
  exact ofRatio_congr negative (powerOfTen_ne_zero _) (powerOfTen_ne_zero _) (by exact_mod_cast h)

theorem ofDecimal_eq_of_magnitude (negative : Bool) {d : Decimal} {e : Fin 2047}
    {f : Fin fractions} (h : d.toRat = magnitude e f) :
    ofDecimal negative d = .finite negative e f :=
  ofRatio_eq_of_magnitude negative (powerOfTen_ne_zero _) ((decimal_quotient d).trans h)

/-- The sign goes through rounding. -/
theorem ofDecimal_sign {d : Decimal} {e : Fin 2047} {f : Fin fractions}
    (h : ofDecimal false d = .finite false e f) (negative : Bool) :
    ofDecimal negative d = .finite negative e f := by
  unfold ofDecimal ofRatio at h ⊢
  split_ifs at h ⊢ with hnum
  · obtain ⟨-, rfl, rfl⟩ := Binary64.finite.inj h
    rfl
  · simp only [ofPlace] at h ⊢
    split_ifs at h ⊢ with hplace
    obtain ⟨-, rfl, rfl⟩ := Binary64.finite.inj h
    rfl

theorem toRat_exact (e : Fin 2047) (f : Fin fractions) : (exact e f).toRat = magnitude e f := by
  unfold exact magnitude
  split_ifs with h
  · obtain ⟨n, hn⟩ := Int.eq_ofNat_of_zero_le h
    simp [Decimal.toRat, hn, Nat.shiftLeft_eq]
  · obtain ⟨n, hn⟩ := Int.eq_ofNat_of_zero_le (show 0 ≤ -power e by omega)
    rw [show power e = -n by omega]
    simp only [Decimal.toRat, neg_neg, Int.toNat_natCast, Nat.pow_eq, zpow_neg, zpow_natCast]
    push_cast
    rw [show (10 : ℚ) = 2 * 5 by norm_num, mul_pow]
    field_simp

/-- Zeros at the end of the digits do not change the value. -/
theorem toRat_stripZeros (d : Decimal) (fuel : ℕ) : (stripZeros d fuel).toRat = d.toRat := by
  induction fuel generalizing d with
  | zero => rfl
  | succ fuel ih =>
    rw [stripZeros]
    split_ifs with h
    · have hdigits : (d.digits : ℚ) = (d.digits / 10 : ℕ) * 10 := by
        exact_mod_cast (Nat.div_mul_cancel (Nat.dvd_of_mod_eq_zero h)).symm
      rw [ih, Decimal.toRat, Decimal.toRat, hdigits, zpow_add_one₀ (by norm_num)]
      ring
    · rfl

/-- **The shortest decimal rounds back.** -/
theorem ofDecimal_shortest (tie : Tie) (negative : Bool) (e : Fin 2047) (f : Fin fractions) :
    ofDecimal negative (shortest tie e f) = .finite negative e f := by
  unfold shortest
  split_ifs with hzero
  · obtain ⟨he, hf⟩ := hzero
    refine ofDecimal_eq_of_magnitude negative ?_
    simp [Decimal.toRat, magnitude, significand, he, hf]
  · rw [ofDecimal_congr negative (toRat_stripZeros _ _)]
    cases hfound : (List.range 17).findSome? fun n => shortestOfLength? tie e f (n + 1) with
    | none => exact ofDecimal_eq_of_magnitude negative (toRat_exact e f)
    | some d =>
      obtain ⟨n, -, hn⟩ := List.exists_of_findSome?_eq_some hfound
      exact ofDecimal_sign (ofDecimal_of_shortestOfLength? hn) negative

end Binary64

end ItemConditions
