import ItemConditions.Proofs.Binary64.Value

/-!
# Whole numbers among the 64-bit numbers

Every whole number below `2 ^ 53` is a 64-bit number, and so is the whole part of every 64-bit
number. Reading a whole number gives a whole number again, if it is not beyond the finite ones.

## Main results

* `Binary64.ofNat_eq_of_magnitude`: a whole 64-bit number is read back
* `Binary64.ofNat_floor_magnitude`: the whole part of a number is read without loss
* `Binary64.exists_nat_of_ofNat`: what a whole number is rounded to is whole
-/

namespace ItemConditions.Binary64

/-- A whole number that is the value of a 64-bit number is read as that number. -/
theorem ofNat_eq_of_magnitude {n : ℕ} {e : Fin 2047} {f : Fin fractions}
    (h : (n : ℚ) = magnitude e f) : ofNat n = .finite false e f :=
  ofRatio_eq_of_magnitude false one_ne_zero (by simpa using h)

/-- Every whole number below `2 ^ 53` is a 64-bit number. -/
theorem ofNat_of_lt {n : ℕ} (hn : n < 2 ^ 53) :
    ∃ e f, ofNat n = .finite false e f ∧ magnitude e f = n := by
  rcases eq_or_ne n 0 with rfl | hn₀
  · exact ⟨0, 0, by simp [ofNat, ofRatio, signedZero], by simp [magnitude, significand]⟩
  have hlog : Int.log 2 ((n : ℚ) / (1 : ℕ)) < 53 := by
    rw [Nat.cast_one, div_one, Int.log_natCast]
    exact_mod_cast Nat.log_lt_of_lt_pow hn₀ hn
  have hlast := lastBit_eq hn₀ one_ne_zero
  have hkept : (kept n 1 : ℚ) = n * 2 ^ (-lastBit n 1) := by
    obtain ⟨m, hm⟩ := Int.eq_ofNat_of_zero_le (show 0 ≤ -lastBit n 1 by omega)
    have hzero : (lastBit n 1).toNat = 0 := by omega
    rw [kept, hzero, hm, Nat.shiftLeft_zero, roundHalfEven_of_dvd Nat.one_pos (Nat.one_dvd _)]
    simp [Nat.shiftLeft_eq]
  have hfinite : ∃ e f, ofNat n = .finite false e f := by
    have hle := kept_le hn₀ (one_ne_zero (α := ℕ))
    have hlt : (lastBit n 1 + 1074).toNat * fractions + kept n 1 < 2047 * fractions := by
      have : (lastBit n 1 + 1074).toNat ≤ 1074 := by omega
      simp only [fractions] at hle ⊢
      omega
    rw [ofNat, ofRatio_of_ne_zero false hn₀, ofPlace, dif_pos hlt]
    exact ⟨_, _, rfl⟩
  obtain ⟨e, f, h⟩ := hfinite
  refine ⟨e, f, h, ?_⟩
  rw [magnitude_of_ofRatio hn₀ one_ne_zero h, hkept, mul_assoc, ← zpow_add₀ two_ne_zero]
  simp

/-- **What a whole number is rounded to is whole.** -/
theorem exists_nat_of_ofNat {n : ℕ} {negative : Bool} {e : Fin 2047} {f : Fin fractions}
    (h : ofNat n = .finite negative e f) : ∃ m : ℕ, magnitude e f = m := by
  rcases Nat.lt_or_ge n (2 ^ 53) with hn | hn
  · obtain ⟨e', f', h', hvalue⟩ := ofNat_of_lt hn
    obtain ⟨-, rfl, rfl⟩ := Binary64.finite.inj (h'.symm.trans h)
    exact ⟨n, hvalue⟩
  · have hn₀ : n ≠ 0 := by positivity
    have hlog : 53 ≤ Int.log 2 ((n : ℚ) / (1 : ℕ)) := by
      rw [Nat.cast_one, div_one, Int.log_natCast]
      exact_mod_cast Nat.le_log_of_pow_le (by norm_num) hn
    have hlast := lastBit_eq hn₀ one_ne_zero
    obtain ⟨p, hp⟩ := Int.eq_ofNat_of_zero_le (show 0 ≤ lastBit n 1 by omega)
    refine ⟨kept n 1 * 2 ^ p, ?_⟩
    rw [magnitude_of_ofRatio hn₀ one_ne_zero h, hp]
    push_cast
    rw [zpow_natCast]

/-! ## Whole parts -/

/-- The whole part of a value, by shifts. -/
theorem shift_eq_floor (e : Fin 2047) (f : Fin fractions) :
    (significand e f <<< (power e).toNat) >>> (-power e).toNat = ⌊magnitude e f⌋₊ := by
  rw [← ratio_quotient, Nat.floor_div_eq_div, Nat.shiftRight_eq_div_pow]
  simp [ratio, Nat.shiftLeft_eq]

theorem wholePart_finite (limit : ℕ) (e : Fin 2047) (f : Fin fractions) :
    wholePart limit (.finite false e f) = min limit ⌊magnitude e f⌋₊ := by
  rw [wholePart, shift_eq_floor]

/-- **The whole part of a number is read without loss**: either nothing stands behind the point, or
the whole part is below `2 ^ 53`. -/
theorem ofNat_floor_magnitude (e : Fin 2047) (f : Fin fractions) :
    ∃ e' f', ofNat ⌊magnitude e f⌋₊ = .finite false e' f' ∧
      magnitude e' f' = ⌊magnitude e f⌋₊ := by
  rcases le_total 0 (power e) with hp | hp
  · obtain ⟨p, hp⟩ := Int.eq_ofNat_of_zero_le hp
    have hwhole : magnitude e f = (significand e f * 2 ^ p : ℕ) := by
      rw [magnitude, hp]
      push_cast
      rw [zpow_natCast]
    have hfloor : ⌊magnitude e f⌋₊ = significand e f * 2 ^ p := by
      rw [hwhole, Nat.floor_natCast]
    refine ⟨e, f, ofNat_eq_of_magnitude ?_, ?_⟩ <;> rw [hfloor, ← hwhole]
  · refine ofNat_of_lt ?_
    rw [← shift_eq_floor, Nat.shiftRight_eq_div_pow, Int.toNat_of_nonpos hp, Nat.shiftLeft_zero]
    exact (Nat.div_le_self _ _).trans_lt (significand_lt e f)

end ItemConditions.Binary64
