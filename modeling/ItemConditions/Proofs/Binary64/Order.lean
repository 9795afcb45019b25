import ItemConditions.Proofs.Binary64.Value

/-!
# Rounding keeps the order

The greater of two quotients with one denominator is not rounded to the smaller number: within a
binade the kept bits grow with the quotient, and the bits that carry over from one binade are no
more than those of the next.

## Main results

* `Binary64.kept_cases_of_le`: the kept bits of two quotients
* `Binary64.ofRatio_mono`, `Binary64.ofNat_mono`: rounding keeps the order
-/

namespace ItemConditions

theorem roundHalfEven_mono {m n : ℕ} (h : m ≤ n) (den : ℕ) :
    roundHalfEven m den ≤ roundHalfEven n den := by
  have hdiv : m / den ≤ n / den := Nat.div_le_div_right h
  rcases hdiv.lt_or_eq with hlt | heq
  · exact (roundHalfEven_bounds m den).2.trans (hlt.trans_le (roundHalfEven_bounds n den).1)
  · have hmod : m % den ≤ n % den := by
      have hm := Nat.div_add_mod m den
      have hn := Nat.div_add_mod n den
      rw [heq] at hm
      omega
    have hparity : n / den % 2 < 2 := Nat.mod_lt _ (by decide)
    simp only [roundHalfEven, heq]
    split_ifs <;> omega

namespace Binary64

variable {m n den : ℕ}

theorem lastBit_mono (hm : m ≠ 0) (hden : den ≠ 0) (h : m ≤ n) : lastBit m den ≤ lastBit n den := by
  have hn : n ≠ 0 := by omega
  have hlog : Int.log 2 (m / den : ℚ) ≤ Int.log 2 (n / den : ℚ) :=
    Int.log_mono_right (by positivity) (by gcongr)
  rw [lastBit_eq hm hden, lastBit_eq hn hden]
  omega

/-- **The kept bits of two quotients**: in one binade they grow, and between two binades the bits
that carry over are in the way of nothing. -/
theorem kept_cases_of_le (hm : m ≠ 0) (hden : den ≠ 0) (h : m ≤ n) :
    (lastBit m den = lastBit n den ∧ kept m den ≤ kept n den) ∨
      (lastBit m den < lastBit n den ∧ kept m den ≤ 2 * fractions ∧ fractions ≤ kept n den) := by
  have hn : n ≠ 0 := by omega
  have hleast := le_lastBit m den
  rcases (lastBit_mono hm hden h).eq_or_lt with heq | hlt
  · refine .inl ⟨heq, ?_⟩
    rw [kept, kept, heq]
    exact roundHalfEven_mono (by rw [Nat.shiftLeft_eq, Nat.shiftLeft_eq]; gcongr) _
  · exact .inr ⟨hlt, kept_le hm hden, fractions_le_kept hn hden (by omega)⟩

/-- The places of two quotients. -/
theorem place_mono (hm : m ≠ 0) (hden : den ≠ 0) (h : m ≤ n) :
    (lastBit m den + 1074).toNat * fractions + kept m den
      ≤ (lastBit n den + 1074).toNat * fractions + kept n den := by
  have hleast := le_lastBit m den
  rcases kept_cases_of_le hm hden h with ⟨heq, hkept⟩ | ⟨hlt, hcarry, hleading⟩
  · rw [heq]
    gcongr
  · have hbinade : (lastBit m den + 1074).toNat + 1 ≤ (lastBit n den + 1074).toNat := by omega
    calc (lastBit m den + 1074).toNat * fractions + kept m den
        ≤ (lastBit m den + 1074).toNat * fractions + 2 * fractions := by gcongr
      _ = ((lastBit m den + 1074).toNat + 1) * fractions + fractions := by ring
      _ ≤ (lastBit n den + 1074).toNat * fractions + kept n den := by gcongr

theorem isFinite_ofPlace_iff {negative : Bool} {place : ℕ} :
    (ofPlace negative place).isFinite ↔ place < 2047 * fractions := by
  rw [ofPlace]
  split_ifs with h
  · simp [isFinite, h]
  · simp [isFinite, h]

theorem toRat_ofRatio (hn : n ≠ 0) (hden : den ≠ 0) (h : (ofRatio false n den).isFinite) :
    (ofRatio false n den).toRat = kept n den * 2 ^ lastBit n den := by
  rcases ofRatio_cases false n den with hinfinity | ⟨e, f, hfinite⟩
  · rw [hinfinity] at h
    simp [isFinite] at h
  · rw [hfinite, ← magnitude_of_ofRatio hn hden hfinite]
    rfl

theorem toRat_ofRatio_nonneg (n den : ℕ) : 0 ≤ (ofRatio false n den).toRat := by
  rcases ofRatio_cases false n den with h | ⟨e, f, h⟩
  · rw [h]
    exact le_rfl
  · rw [h]
    exact magnitude_nonneg e f

/-- **Rounding keeps the order.** -/
theorem ofRatio_mono (hden : den ≠ 0) (h : m ≤ n) (hfinite : (ofRatio false n den).isFinite) :
    (ofRatio false m den).isFinite ∧
      (ofRatio false m den).toRat ≤ (ofRatio false n den).toRat := by
  rcases eq_or_ne m 0 with rfl | hm
  · have hzero : ofRatio false 0 den = .zero := rfl
    have hvalue : Binary64.zero.toRat = 0 := magnitude_zero
    rw [hzero, hvalue]
    exact ⟨rfl, toRat_ofRatio_nonneg n den⟩
  have hn : n ≠ 0 := by omega
  have hsmall : (ofRatio false m den).isFinite := by
    rw [ofRatio_of_ne_zero false hn, isFinite_ofPlace_iff] at hfinite
    rw [ofRatio_of_ne_zero false hm, isFinite_ofPlace_iff]
    exact (place_mono hm hden h).trans_lt hfinite
  refine ⟨hsmall, ?_⟩
  rw [toRat_ofRatio hm hden hsmall, toRat_ofRatio hn hden hfinite]
  rcases kept_cases_of_le hm hden h with ⟨heq, hkept⟩ | ⟨hlt, hcarry, hleading⟩
  · rw [heq]
    gcongr
  · calc (kept m den : ℚ) * 2 ^ lastBit m den
        ≤ (2 * fractions : ℕ) * 2 ^ lastBit m den := by gcongr
      _ = fractions * 2 ^ (lastBit m den + 1) := by
          rw [zpow_add_one₀ two_ne_zero]
          push_cast
          ring
      _ ≤ kept n den * 2 ^ lastBit n den := by
          gcongr
          · norm_num
          · omega

theorem ofNat_mono (h : m ≤ n) (hfinite : (ofNat n).isFinite) :
    (ofNat m).isFinite ∧ (ofNat m).toRat ≤ (ofNat n).toRat :=
  ofRatio_mono one_ne_zero h hfinite

end Binary64

end ItemConditions
