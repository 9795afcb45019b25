import ItemConditions.Binary64.Rounding
import Mathlib.Algebra.Order.Floor.Semifield
import Mathlib.Data.Int.Log
import Mathlib.Data.Rat.Floor
import Mathlib.Tactic

/-!
# Exact values of 64-bit numbers

The rational number that the fields of a finite number denote, and what rounding a quotient does to
it. Rounding sees only the quotient, not its spelling, and keeps every quotient that is the value of
a 64-bit number.

## Main definitions

* `Binary64.magnitude`: the value of the fields, without the sign
* `Binary64.toRat`: the value of a finite number

## Main results

* `Binary64.lastBit_eq`: the last kept bit, by the logarithm of the quotient
* `Binary64.ofRatio_congr`: equal quotients are rounded alike
* `Binary64.equals_iff_toRat_eq`: equality is equality of values
* `Binary64.ofRatio_eq_of_magnitude`: the value of a 64-bit number is kept
* `Binary64.magnitude_of_ofRatio`: the value of a rounded quotient
-/

namespace ItemConditions

/-! ## Rounding to whole numbers -/

/-- Rounding goes to one of the two neighbours. -/
theorem roundHalfEven_bounds (num den : ℕ) :
    num / den ≤ roundHalfEven num den ∧ roundHalfEven num den ≤ num / den + 1 := by
  have hmod : num / den % 2 < 2 := Nat.mod_lt _ (by decide)
  simp only [roundHalfEven]
  split_ifs <;> omega

theorem roundHalfEven_mul_left {k : ℕ} (hk : 0 < k) (num den : ℕ) :
    roundHalfEven (k * num) (k * den) = roundHalfEven num den := by
  have hlow : 2 * (k * (num % den)) < k * den ↔ 2 * (num % den) < den := by
    rw [Nat.mul_left_comm]
    exact Nat.mul_lt_mul_left hk
  have hhigh : k * den < 2 * (k * (num % den)) ↔ den < 2 * (num % den) := by
    rw [Nat.mul_left_comm]
    exact Nat.mul_lt_mul_left hk
  simp only [roundHalfEven, Nat.mul_div_mul_left _ _ hk, Nat.mul_mod_mul_left, hlow, hhigh]

namespace Binary64

/-! ## Values -/

/-- **The value of the fields**, without the sign. -/
def magnitude (e : Fin 2047) (f : Fin fractions) : ℚ := significand e f * 2 ^ power e

/-- **The value of a finite number**; zero for the others. -/
def toRat : Binary64 → ℚ
  | .finite negative e f => if negative then -magnitude e f else magnitude e f
  | _ => 0

theorem magnitude_nonneg (e : Fin 2047) (f : Fin fractions) : 0 ≤ magnitude e f := by
  unfold magnitude
  positivity

theorem significand_lt (e : Fin 2047) (f : Fin fractions) :
    significand e f < 2 * fractions := by
  have hf := f.isLt
  unfold significand
  split_ifs <;> omega

/-- Shifting both sides of a quotient multiplies it by a power of two. -/
theorem shift_quotient (num den : ℕ) (p : ℤ) :
    ((num <<< p.toNat : ℕ) : ℚ) / (den <<< (-p).toNat : ℕ) = num / den * 2 ^ p := by
  rcases le_total 0 p with hp | hp
  · obtain ⟨n, rfl⟩ := Int.eq_ofNat_of_zero_le hp
    simp [Nat.shiftLeft_eq]
    ring
  · obtain ⟨n, hn⟩ := Int.eq_ofNat_of_zero_le (Int.neg_nonneg.mpr hp)
    obtain rfl : p = -n := by omega
    simp [Nat.shiftLeft_eq]
    ring

theorem ratio_quotient (e : Fin 2047) (f : Fin fractions) :
    ((ratio e f).num : ℚ) / (ratio e f).den = magnitude e f := by
  simp only [ratio, shift_quotient, magnitude, Nat.cast_one, div_one]

theorem ratio_den_pos (e : Fin 2047) (f : Fin fractions) : 0 < (ratio e f).den := by
  simp [ratio, Nat.shiftLeft_eq]

/-! ## The last kept bit -/

/-- The estimate of the logarithm of a quotient is too high by one, or right. -/
theorem log_estimate {num den : ℕ} (hnum : num ≠ 0) (hden : den ≠ 0) :
    (2 : ℚ) ^ ((num.log2 : ℤ) - den.log2 - 1) < num / den ∧
      (num / den : ℚ) < 2 ^ ((num.log2 : ℤ) - den.log2 + 1) := by
  have hden' : (0 : ℚ) < den := by positivity
  have hn₁ : (2 : ℚ) ^ num.log2 ≤ num := by exact_mod_cast Nat.log2_self_le hnum
  have hn₂ : (num : ℚ) < 2 ^ (num.log2 + 1) := by exact_mod_cast Nat.lt_log2_self
  have hd₁ : (2 : ℚ) ^ den.log2 ≤ den := by exact_mod_cast Nat.log2_self_le hden
  have hd₂ : (den : ℚ) < 2 ^ (den.log2 + 1) := by exact_mod_cast Nat.lt_log2_self
  constructor
  · rw [lt_div_iff₀ hden']
    calc (2 : ℚ) ^ ((num.log2 : ℤ) - den.log2 - 1) * den
        < 2 ^ ((num.log2 : ℤ) - den.log2 - 1) * 2 ^ (den.log2 + 1) := by gcongr
      _ = 2 ^ num.log2 := by
          rw [← zpow_natCast, ← zpow_natCast, ← zpow_add₀ two_ne_zero]
          congr 1
          push_cast
          ring
      _ ≤ num := hn₁
  · rw [div_lt_iff₀ hden']
    calc (num : ℚ) < 2 ^ (num.log2 + 1) := hn₂
      _ = 2 ^ ((num.log2 : ℤ) - den.log2 + 1) * 2 ^ den.log2 := by
          rw [← zpow_natCast, ← zpow_natCast, ← zpow_add₀ two_ne_zero]
          congr 1
          push_cast
          ring
      _ ≤ 2 ^ ((num.log2 : ℤ) - den.log2 + 1) * den := by gcongr

/-- A logarithm is told by the powers around it. -/
theorem log_eq_of_bounds {q : ℚ} {p : ℤ} (hlow : 2 ^ p ≤ q) (hhigh : q < 2 ^ (p + 1)) :
    Int.log 2 q = p := by
  have hq : 0 < q := lt_of_lt_of_le (by positivity) hlow
  have h₁ : p ≤ Int.log 2 q := (Int.zpow_le_iff_le_log (b := 2) (by norm_num) hq).mp hlow
  have h₂ : Int.log 2 q < p + 1 := (Int.lt_zpow_iff_log_lt (b := 2) (by norm_num) hq).mp hhigh
  omega

theorem le_lastBit (num den : ℕ) : -1074 ≤ lastBit num den := le_max_right _ _

/-- The last kept bit stands fifty-two places below the leading one, which the logarithm of the
quotient gives. -/
theorem lastBit_eq {num den : ℕ} (hnum : num ≠ 0) (hden : den ≠ 0) :
    lastBit num den = max (Int.log 2 (num / den : ℚ) - 52) (-1074) := by
  obtain ⟨hlow, hhigh⟩ := log_estimate hnum hden
  simp only [lastBit]
  set p : ℤ := (num.log2 : ℤ) - den.log2 with hp
  -- The test on shifted naturals compares the quotient with the estimated power.
  have hcompare : den <<< p.toNat ≤ num <<< (-p).toNat ↔ (2 : ℚ) ^ p ≤ num / den := by
    have hden' : (0 : ℚ) < (den <<< p.toNat : ℕ) := by
      rw [Nat.shiftLeft_eq]
      positivity
    have hquotient : ((num <<< (-p).toNat : ℕ) : ℚ) / (den <<< p.toNat : ℕ)
        = num / den * 2 ^ (-p) := by
      simpa using shift_quotient num den (-p)
    rw [← Nat.cast_le (α := ℚ), ← one_le_div hden', hquotient, zpow_neg, ← div_eq_mul_inv,
      one_le_div (by positivity)]
  congr 1
  split_ifs with h
  · rw [log_eq_of_bounds (hcompare.mp h) hhigh]
  · have hlow' : (2 : ℚ) ^ (p - 1) ≤ num / den := hlow.le
    have hhigh' : (num / den : ℚ) < 2 ^ (p - 1 + 1) := by
      rw [sub_add_cancel]
      exact not_le.mp (mt hcompare.mpr h)
    rw [log_eq_of_bounds hlow' hhigh']

/-! ## Rounding a quotient -/

/-- The kept bits of a quotient, as a whole number. -/
def kept (num den : ℕ) : ℕ :=
  roundHalfEven (num <<< (-lastBit num den).toNat) (den <<< (lastBit num den).toNat)

theorem ofRatio_of_ne_zero (negative : Bool) {num : ℕ} (hnum : num ≠ 0) (den : ℕ) :
    ofRatio negative num den
      = ofPlace negative ((lastBit num den + 1074).toNat * fractions + kept num den) := by
  simp [ofRatio, kept, hnum]

theorem ofRatio_mul_left (negative : Bool) {k den : ℕ} (hk : k ≠ 0) (hden : den ≠ 0) (num : ℕ) :
    ofRatio negative (k * num) (k * den) = ofRatio negative num den := by
  rcases eq_or_ne num 0 with rfl | hnum
  · simp [ofRatio]
  have hquotient : ((k * num : ℕ) : ℚ) / (k * den : ℕ) = num / den := by
    have hk' : (k : ℚ) ≠ 0 := by exact_mod_cast hk
    push_cast
    exact mul_div_mul_left _ _ hk'
  have hlast : lastBit (k * num) (k * den) = lastBit num den := by
    rw [lastBit_eq (Nat.mul_ne_zero hk hnum) (Nat.mul_ne_zero hk hden), lastBit_eq hnum hden,
      hquotient]
  have hshift (n m : ℕ) : (k * n) <<< m = k * n <<< m := by
    rw [Nat.shiftLeft_eq, Nat.shiftLeft_eq, Nat.mul_assoc]
  rw [ofRatio_of_ne_zero negative (Nat.mul_ne_zero hk hnum), ofRatio_of_ne_zero negative hnum,
    kept, kept, hlast, hshift, hshift, roundHalfEven_mul_left (Nat.pos_of_ne_zero hk)]

/-- Equal quotients are rounded alike. -/
theorem ofRatio_congr (negative : Bool) {num den num' den' : ℕ} (hden : den ≠ 0)
    (hden' : den' ≠ 0) (h : num * den' = num' * den) :
    ofRatio negative num den = ofRatio negative num' den' := by
  rw [← ofRatio_mul_left negative hden' hden num, ← ofRatio_mul_left negative hden hden' num',
    Nat.mul_comm den' num, h, Nat.mul_comm num' den, Nat.mul_comm den' den]

/-- Rounding gives a finite number or an infinity, with the sign that it is given. -/
theorem ofRatio_cases (negative : Bool) (num den : ℕ) :
    ofRatio negative num den = .infinity negative ∨
      ∃ e f, ofRatio negative num den = .finite negative e f := by
  rcases eq_or_ne num 0 with rfl | hnum
  · exact Or.inr ⟨0, 0, by simp [ofRatio, signedZero]⟩
  · rw [ofRatio_of_ne_zero negative hnum, ofPlace]
    split_ifs
    · exact Or.inr ⟨_, _, rfl⟩
    · exact Or.inl rfl

theorem ofRatio_ne_nan (negative : Bool) (num den : ℕ) : ofRatio negative num den ≠ .nan := by
  rcases ofRatio_cases negative num den with h | ⟨e, f, h⟩ <;> simp [h]

theorem isNegative_ofRatio (negative : Bool) (num den : ℕ) :
    (ofRatio negative num den).isNegative = negative := by
  rcases ofRatio_cases negative num den with h | ⟨e, f, h⟩ <;> rw [h] <;> rfl

/-- The place of a number in the ascending list. -/
theorem ofPlace_of_fields (negative : Bool) (e : Fin 2047) (f : Fin fractions) :
    ofPlace negative (e.val * fractions + f.val) = .finite negative e f := by
  have hlt : e.val * fractions + f.val < 2047 * fractions := by
    have he := e.isLt
    have hf := f.isLt
    simp only [fractions] at hf ⊢
    omega
  have hdiv : (e.val * fractions + f.val) / fractions = e.val := by
    rw [Nat.mul_comm, Nat.mul_add_div (by decide), Nat.div_eq_of_lt f.isLt, Nat.add_zero]
  have hmod : (e.val * fractions + f.val) % fractions = f.val := by
    rw [Nat.mul_comm, Nat.mul_add_mod, Nat.mod_eq_of_lt f.isLt]
  simp only [ofPlace, hlt, ↓reduceDIte, hdiv, hmod, Fin.eta]

/-- The logarithm of a value: fifty-two above its power of two, unless it lies in the lowest
binade. -/
theorem lastBit_ratio {e : Fin 2047} {f : Fin fractions} (h : significand e f ≠ 0) :
    lastBit (ratio e f).num (ratio e f).den = power e := by
  have hnum : (ratio e f).num ≠ 0 := by simp [ratio, Nat.shiftLeft_eq, h]
  have hpos : (0 : ℚ) < significand e f := by exact_mod_cast Nat.pos_of_ne_zero h
  rw [lastBit_eq hnum (ratio_den_pos e f).ne', ratio_quotient, magnitude]
  by_cases he : e.val = 0
  · have hpower : power e = -1074 := by simp [power, he]
    have hlt : (significand e f : ℚ) < 2 ^ (52 : ℤ) := by
      have hf := f.isLt
      have : significand e f < 2 ^ 52 := by simp [significand, he]
      exact_mod_cast this
    have hlog : Int.log 2 ((significand e f : ℚ) * 2 ^ power e) < 52 + power e := by
      refine (Int.lt_zpow_iff_log_lt (b := 2) (by norm_num) (by positivity)).mp ?_
      rw [Nat.cast_ofNat, zpow_add₀ two_ne_zero]
      gcongr
    omega
  · have hlow : (2 : ℚ) ^ (52 : ℤ) ≤ significand e f := by
      have : 2 ^ 52 ≤ significand e f := by simp [significand, he, fractions]
      exact_mod_cast this
    have hhigh : (significand e f : ℚ) < 2 ^ (53 : ℤ) := by
      have : significand e f < 2 ^ 53 := significand_lt e f
      exact_mod_cast this
    have hlog : Int.log 2 ((significand e f : ℚ) * 2 ^ power e) = 52 + power e := by
      refine log_eq_of_bounds ?_ ?_
      · rw [zpow_add₀ two_ne_zero]
        gcongr
      · rw [show 52 + power e + 1 = 53 + power e by ring, zpow_add₀ two_ne_zero]
        gcongr
    rw [hlog]
    simp only [power]
    omega

theorem ofRatio_ratio (negative : Bool) (e : Fin 2047) (f : Fin fractions) :
    ofRatio negative (ratio e f).num (ratio e f).den = .finite negative e f := by
  by_cases h : significand e f = 0
  · have hfields : e = 0 ∧ f = 0 := by
      unfold significand at h
      split_ifs at h with he
      · exact ⟨Fin.ext he, Fin.ext h⟩
      · omega
    have hnum : (ratio e f).num = 0 := by simp [ratio, h]
    rw [ofRatio, if_pos hnum, hfields.1, hfields.2, signedZero]
  · have hnum : (ratio e f).num ≠ 0 := by simp [ratio, Nat.shiftLeft_eq, h]
    have hkept : kept (ratio e f).num (ratio e f).den = significand e f := by
      rw [kept, lastBit_ratio h]
      simp only [ratio, Nat.shiftLeft_eq]
      rw [show significand e f * 2 ^ (power e).toNat * 2 ^ (-power e).toNat
          = 2 ^ (power e).toNat * 2 ^ (-power e).toNat * significand e f by ring,
        show 1 * 2 ^ (-power e).toNat * 2 ^ (power e).toNat
          = 2 ^ (power e).toNat * 2 ^ (-power e).toNat * 1 by ring,
        roundHalfEven_mul_left (by positivity),
        roundHalfEven_of_dvd Nat.one_pos (Nat.one_dvd _), Nat.div_one]
    have hplace : (power e + 1074).toNat * fractions + significand e f
        = e.val * fractions + f.val := by
      simp only [power, significand, fractions]
      split_ifs with he <;> omega
    rw [ofRatio_of_ne_zero negative hnum, lastBit_ratio h, hkept, hplace, ofPlace_of_fields]

/-- **The value of a 64-bit number is kept**, however the quotient is spelled. -/
theorem ofRatio_eq_of_magnitude (negative : Bool) {num den : ℕ} {e : Fin 2047} {f : Fin fractions}
    (hden : den ≠ 0) (h : (num : ℚ) / den = magnitude e f) :
    ofRatio negative num den = .finite negative e f := by
  have hden₁ : (den : ℚ) ≠ 0 := by exact_mod_cast hden
  have hden₂ : ((ratio e f).den : ℚ) ≠ 0 := by exact_mod_cast (ratio_den_pos e f).ne'
  rw [← ratio_quotient, div_eq_div_iff hden₁ hden₂] at h
  rw [ofRatio_congr negative hden (ratio_den_pos e f).ne' (by exact_mod_cast h), ofRatio_ratio]

/-- The fields are known from the value. -/
theorem magnitude_injective {e e' : Fin 2047} {f f' : Fin fractions}
    (h : magnitude e f = magnitude e' f') : e = e' ∧ f = f' := by
  have hratio := ofRatio_eq_of_magnitude false (ratio_den_pos e f).ne'
    ((ratio_quotient e f).trans h)
  rw [ofRatio_ratio] at hratio
  exact ⟨(Binary64.finite.inj hratio).2.1, (Binary64.finite.inj hratio).2.2⟩

@[simp] theorem magnitude_zero : magnitude 0 0 = 0 := by
  simp [magnitude, significand]

theorem isZero_iff_toRat_eq {x : Binary64} (hx : x.isFinite) : x.isZero ↔ x.toRat = 0 := by
  cases x with
  | finite negative e f =>
    have hfields : (e = 0 ∧ f = 0) ↔ magnitude e f = 0 := by
      constructor
      · rintro ⟨rfl, rfl⟩
        exact magnitude_zero
      · exact fun h => magnitude_injective (h.trans magnitude_zero.symm)
    rw [isZero, Bool.and_eq_true, beq_iff_eq, beq_iff_eq, Fin.val_eq_zero_iff,
      Fin.val_eq_zero_iff, hfields]
    cases negative <;> simp [toRat]
  | _ => simp [isFinite] at hx

/-- **Finite numbers are equal if their values are**, and the other way round. -/
theorem equals_iff_toRat_eq {x y : Binary64} (hx : x.isFinite) (hy : y.isFinite) :
    x.equals y ↔ x.toRat = y.toRat := by
  have hnan : x.isNaN = false := by cases x <;> first | rfl | simp [isFinite] at hx
  simp only [equals, hnan, Bool.not_false, Bool.true_and, Bool.or_eq_true, beq_iff_eq,
    Bool.and_eq_true, isZero_iff_toRat_eq hx, isZero_iff_toRat_eq hy]
  constructor
  · rintro (rfl | ⟨hx₀, hy₀⟩)
    · rfl
    · rw [hx₀, hy₀]
  · intro h
    cases x with
    | finite negative e f =>
      cases y with
      | finite negative' e' f' =>
        have hmag := magnitude_nonneg e f
        have hmag' := magnitude_nonneg e' f'
        by_cases hsign : negative = negative'
        · subst hsign
          obtain ⟨rfl, rfl⟩ : e = e' ∧ f = f' := by
            apply magnitude_injective
            cases negative <;> simpa [toRat] using h
          exact Or.inl rfl
        · right
          rw [← h, and_self]
          cases negative <;> cases negative' <;> simp_all [toRat] <;> linarith
      | _ => simp [isFinite] at hy
    | _ => simp [isFinite] at hx

/-! ## The value of a rounded quotient -/

/-- Bits at a place denote them times the power of two of the place; bits that carry over stand in
the next binade with the same value. -/
theorem magnitude_of_place {e : Fin 2047} {f : Fin fractions} {k m : ℕ}
    (h : e.val * fractions + f.val = k * fractions + m) (hm : m ≤ 2 * fractions)
    (hk : k = 0 ∨ fractions ≤ m) : magnitude e f = m * 2 ^ ((k : ℤ) - 1074) := by
  have hf := f.isLt
  have hfractions : fractions = 4503599627370496 := rfl
  simp only [fractions] at h
  -- By the leading bit: none, at its own place, or carried over into the next binade.
  rcases Nat.lt_or_ge m fractions with hlow | hlow
  · obtain rfl : k = 0 := by omega
    have he : e.val = 0 := by omega
    have hsig : significand e f = m := by simp only [significand, he, ↓reduceIte]; omega
    simp [magnitude, hsig, power, he]
  · rcases Nat.lt_or_ge m (2 * fractions) with hhigh | hhigh
    · have he : e.val = k + 1 := by omega
      have hsig : significand e f = m := by
        rw [significand, if_neg (by omega)]
        omega
      rw [magnitude, hsig, power, he]
      congr 2
      omega
    · have he : e.val = k + 2 := by omega
      have hsig : significand e f = fractions := by
        rw [significand, if_neg (by omega)]
        omega
      have hpower : power e = (k : ℤ) - 1074 + 1 := by
        rw [power, he]
        omega
      obtain rfl : m = 2 * fractions := by omega
      rw [magnitude, hsig, hpower, zpow_add_one₀ two_ne_zero]
      push_cast
      ring

theorem kept_quotient (num den : ℕ) :
    ((num <<< (-lastBit num den).toNat : ℕ) : ℚ) / (den <<< (lastBit num den).toNat : ℕ)
      = num / den * 2 ^ (-lastBit num den) := by
  simpa using shift_quotient num den (-lastBit num den)

theorem le_kept {num den m : ℕ} (hden : den ≠ 0)
    (h : (m : ℚ) ≤ num / den * 2 ^ (-lastBit num den)) : m ≤ kept num den := by
  have hpos : 0 < den <<< (lastBit num den).toNat := by
    rw [Nat.shiftLeft_eq]
    positivity
  rw [← kept_quotient, le_div_iff₀ (by exact_mod_cast hpos)] at h
  have hdiv := (Nat.le_div_iff_mul_le hpos).mpr (by exact_mod_cast h)
  exact hdiv.trans (roundHalfEven_bounds _ _).1

theorem kept_le_of_lt {num den m : ℕ} (hden : den ≠ 0)
    (h : (num / den : ℚ) * 2 ^ (-lastBit num den) < m) : kept num den ≤ m := by
  have hpos : 0 < den <<< (lastBit num den).toNat := by
    rw [Nat.shiftLeft_eq]
    positivity
  rw [← kept_quotient, div_lt_iff₀ (by exact_mod_cast hpos)] at h
  have hdiv := (Nat.div_lt_iff_lt_mul hpos).mpr (by exact_mod_cast h)
  exact (roundHalfEven_bounds _ _).2.trans hdiv

theorem kept_le {num den : ℕ} (hnum : num ≠ 0) (hden : den ≠ 0) : kept num den ≤ 2 * fractions := by
  have hlog := Int.lt_zpow_succ_log_self (b := 2) (by norm_num) (num / den : ℚ)
  have hlast := lastBit_eq hnum hden
  refine kept_le_of_lt hden ?_
  calc (num / den : ℚ) * 2 ^ (-lastBit num den)
      < 2 ^ (Int.log 2 (num / den : ℚ) + 1) * 2 ^ (-lastBit num den) := by
        gcongr
        exact_mod_cast hlog
    _ = 2 ^ (Int.log 2 (num / den : ℚ) + 1 - lastBit num den) := by
        rw [← zpow_add₀ two_ne_zero, sub_eq_add_neg]
    _ ≤ 2 ^ (53 : ℤ) := zpow_le_zpow_right₀ (by norm_num) (by omega)
    _ = (2 * fractions : ℕ) := by norm_num [fractions]

/-- Above the lowest binade the leading bit is among the kept ones. -/
theorem fractions_le_kept {num den : ℕ} (hnum : num ≠ 0) (hden : den ≠ 0)
    (hlast : lastBit num den ≠ -1074) : fractions ≤ kept num den := by
  have hq : (0 : ℚ) < num / den := by positivity
  have hlog := Int.zpow_log_le_self (b := 2) (by norm_num) hq
  have hlast' := lastBit_eq hnum hden
  refine le_kept hden ?_
  calc ((fractions : ℕ) : ℚ) = 2 ^ (Int.log 2 (num / den : ℚ) - lastBit num den) := by
        rw [show Int.log 2 (num / den : ℚ) - lastBit num den = 52 by omega]
        norm_num [fractions]
    _ = 2 ^ Int.log 2 (num / den : ℚ) * 2 ^ (-lastBit num den) := by
        rw [← zpow_add₀ two_ne_zero, sub_eq_add_neg]
    _ ≤ (num / den : ℚ) * 2 ^ (-lastBit num den) := by
        gcongr
        exact_mod_cast hlog

/-- **The value of a rounded quotient**: the kept bits at the last place. -/
theorem magnitude_of_ofRatio {negative s : Bool} {num den : ℕ} {e : Fin 2047} {f : Fin fractions}
    (hnum : num ≠ 0) (hden : den ≠ 0) (h : ofRatio negative num den = .finite s e f) :
    magnitude e f = kept num den * 2 ^ lastBit num den := by
  have hlast := le_lastBit num den
  rw [ofRatio_of_ne_zero negative hnum, ofPlace] at h
  split_ifs at h with hplace
  obtain ⟨-, he, hf⟩ := Binary64.finite.inj h
  have hfields : e.val * fractions + f.val
      = (lastBit num den + 1074).toNat * fractions + kept num den := by
    rw [← he, ← hf]
    exact Nat.div_add_mod' _ _
  have hk : (lastBit num den + 1074).toNat = 0 ∨ fractions ≤ kept num den := by
    by_cases hlow : lastBit num den = -1074
    · exact Or.inl (by omega)
    · exact Or.inr (fractions_le_kept hnum hden hlow)
  rw [magnitude_of_place hfields (kept_le hnum hden) hk]
  congr 2
  omega

end Binary64

end ItemConditions
