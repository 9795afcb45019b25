import ItemConditions.Command
import ItemConditions.Proofs.Binary64.Whole

/-!
# Numbers of items

A removal is written with a whole number of items that saturates below `2 ^ 64`, and read with one
rounding. The two together take a number to its whole part, up to `2 ^ 64`: the greatest number that
can be written is rounded up to it.

## Main definitions

* `Command.asked`: the number of items that a removal asks for
* `Command.IsCount`: a whole number of items up to `2 ^ 64`
* `Command.capped`: a number of items up to `2 ^ 64`

## Main results

* `Command.ofNat_wholePart`: what is read from the number that is written
* `Command.equals_ofNat_asked_iff`: which numbers are read back
* `Command.ofNat_asked_ofNat`: what becomes of a number that was read
-/

namespace ItemConditions.Command

open Binary64

/-- **The number of items that a removal asks for**: the whole part of a number up to `2 ^ 64`, and
none for a negative number and for not-a-number. -/
def asked : Binary64 → ℕ
  | .nan => 0
  | .infinity negative => if negative then 0 else 2 ^ 64
  | .finite negative e f => min ⌊(Binary64.finite negative e f).toRat⌋₊ (2 ^ 64)

/-- **A whole number of items** up to `2 ^ 64`. -/
def IsCount (x : Binary64) : Prop := x.isFinite ∧ ∃ n : ℕ, n ≤ 2 ^ 64 ∧ x.toRat = n

/-- A number of items up to `2 ^ 64`. -/
def capped (x : Binary64) : Binary64 :=
  if x.isFinite ∧ x.toRat ≤ 2 ^ 64 then x else .ofNat (2 ^ 64)

/-! ## Whole parts -/

theorem asked_le (x : Binary64) : asked x ≤ 2 ^ 64 := by
  unfold asked
  split
  · exact Nat.zero_le _
  · split_ifs
    · exact Nat.zero_le _
    · exact le_rfl
  · exact min_le_right _ _

/-- A negative number asks for nothing. -/
theorem asked_negative (e : Fin 2047) (f : Fin fractions) : asked (.finite true e f) = 0 := by
  have hfloor : ⌊(Binary64.finite true e f).toRat⌋₊ = 0 :=
    Nat.floor_of_nonpos (neg_nonpos.mpr (magnitude_nonneg e f))
  rw [asked, hfloor, Nat.zero_min]

theorem wholePart_eq (x : Binary64) : x.wholePart countLimit = min countLimit (asked x) := by
  cases x with
  | nan => rfl
  | infinity negative => cases negative <;> rfl
  | finite negative e f =>
    cases negative with
    | true => rw [asked_negative, wholePart, Nat.min_zero]
    | false =>
      have hvalue : (Binary64.finite false e f).toRat = magnitude e f := rfl
      rw [wholePart_finite, asked, hvalue]
      simp only [countLimit]
      omega

theorem ofNat_limit : ofNat (2 ^ 64) = .finite false 1087 0 := by decide

theorem magnitude_limit : magnitude 1087 0 = 2 ^ 64 := by
  have hsignificand : significand 1087 0 = 2 ^ 52 := by decide
  have hpower : power 1087 = 12 := by decide
  rw [magnitude, hsignificand, hpower]
  norm_num

/-- The greatest number that can be written is rounded up. -/
theorem ofNat_countLimit : ofNat countLimit = ofNat (2 ^ 64) := by
  have hlimit : ofNat countLimit = .finite false 1087 0 := by decide
  rw [hlimit, ofNat_limit]

/-- **What is read from the number that is written** is the number that is asked for. -/
theorem ofNat_wholePart (x : Binary64) : ofNat (x.wholePart countLimit) = ofNat (asked x) := by
  rw [wholePart_eq]
  rcases (asked_le x).lt_or_eq with hlt | heq
  · rw [Nat.min_eq_right (by simp only [countLimit]; omega)]
  · rw [heq, Nat.min_eq_left (by decide), ofNat_countLimit]

/-! ## Values -/

/-- The number that is asked for is read without loss. -/
theorem exists_magnitude_asked (x : Binary64) :
    ∃ e f, ofNat (asked x) = .finite false e f ∧ magnitude e f = asked x := by
  have hzero : ∃ e f, ofNat 0 = .finite false e f ∧ magnitude e f = (0 : ℕ) :=
    ofNat_of_lt (by decide)
  have hlimit : ∃ e f, ofNat (2 ^ 64) = .finite false e f ∧ magnitude e f = (2 ^ 64 : ℕ) :=
    ⟨1087, 0, ofNat_limit, by rw [magnitude_limit]; norm_num⟩
  cases x with
  | nan => exact hzero
  | infinity negative =>
    cases negative
    · exact hlimit
    · exact hzero
  | finite negative e f =>
    cases negative with
    | true => rwa [asked_negative]
    | false =>
      rcases le_total ⌊magnitude e f⌋₊ (2 ^ 64) with hle | hle
      · have hasked : asked (.finite false e f) = ⌊magnitude e f⌋₊ := min_eq_left hle
        rw [hasked]
        exact ofNat_floor_magnitude e f
      · have hasked : asked (.finite false e f) = 2 ^ 64 := min_eq_right hle
        rwa [hasked]

theorem isFinite_ofNat_asked (x : Binary64) : (ofNat (asked x)).isFinite := by
  obtain ⟨e, f, h, -⟩ := exists_magnitude_asked x
  rw [h]
  rfl

theorem toRat_ofNat_asked (x : Binary64) : (ofNat (asked x)).toRat = asked x := by
  obtain ⟨e, f, h, hvalue⟩ := exists_magnitude_asked x
  rw [h]
  exact hvalue

theorem asked_of_toRat {x : Binary64} (hx : x.isFinite) {n : ℕ} (hn : x.toRat = n) :
    asked x = min n (2 ^ 64) := by
  cases x with
  | finite negative e f => rw [asked, hn, Nat.floor_natCast]
  | _ => simp [isFinite] at hx

/-- Asking once settles the number. -/
@[simp] theorem asked_ofNat_asked (x : Binary64) : asked (ofNat (asked x)) = asked x := by
  rw [asked_of_toRat (isFinite_ofNat_asked x) (toRat_ofNat_asked x), Nat.min_eq_left (asked_le x)]

/-- **The numbers that are read back** are the whole ones up to `2 ^ 64`. -/
theorem equals_ofNat_asked_iff (x : Binary64) : (ofNat (asked x)).equals x ↔ IsCount x := by
  have hfinite := isFinite_ofNat_asked x
  by_cases hx : x.isFinite
  · rw [equals_iff_toRat_eq hfinite hx, toRat_ofNat_asked]
    constructor
    · exact fun h => ⟨hx, asked x, asked_le x, h.symm⟩
    · rintro ⟨-, n, hn, hvalue⟩
      rw [asked_of_toRat hx hvalue, Nat.min_eq_left hn, hvalue]
  · have hne : ofNat (asked x) ≠ x := fun h => hx (h ▸ hfinite)
    have hzero : x.isZero = false := by cases x <;> first | rfl | simp [isFinite] at hx
    simp [equals, hne, hzero, IsCount, hx]

/-- **What becomes of a number that was read** as digits: only what lies above `2 ^ 64` is lost. -/
theorem ofNat_asked_ofNat (n : ℕ) : ofNat (asked (ofNat n)) = capped (ofNat n) := by
  rcases ofRatio_cases false n 1 with h | ⟨e, f, h⟩
  · have hinfinity : ofNat n = .infinity false := h
    simp [hinfinity, asked, capped, isFinite]
  · have hfinite : ofNat n = .finite false e f := h
    obtain ⟨k, hk⟩ := exists_nat_of_ofNat hfinite
    have hvalue : (Binary64.finite false e f).toRat = k := hk
    rw [hfinite, asked_of_toRat rfl hvalue, capped, hvalue]
    rcases le_or_gt k (2 ^ 64) with hle | hgt
    · have hle' : (k : ℚ) ≤ 2 ^ 64 := by exact_mod_cast hle
      rw [if_pos ⟨rfl, hle'⟩, Nat.min_eq_left hle, ofNat_eq_of_magnitude hk.symm]
    · have hgt' : ¬ (k : ℚ) ≤ 2 ^ 64 := by exact_mod_cast hgt.not_ge
      rw [if_neg (fun h => hgt' h.2), Nat.min_eq_right hgt.le]

end ItemConditions.Command
