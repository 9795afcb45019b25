import ItemConditions.Binary64

/-!
# Rounding to 64 bits

The 64-bit number nearest to an exact quotient, halves going to the even neighbour.

## Main definitions

* `roundHalfEven`: the whole number nearest to a quotient
* `Binary64.ofRatio`: the 64-bit number nearest to a quotient
* `Decimal`, `Binary64.ofDecimal`: whole multiples of powers of ten, and the number nearest to one

## Main results

* `roundHalfEven_of_dvd`: an exact quotient is kept
-/

namespace ItemConditions

/-- The whole number nearest to `num / den`; of two equally near ones the even one. -/
def roundHalfEven (num den : Nat) : Nat :=
  let q := num / den
  let r := num % den
  if 2 * r < den then q
  else if den < 2 * r then q + 1
  else q + q % 2

/-- An exact quotient is kept. -/
theorem roundHalfEven_of_dvd {num den : Nat} (hden : 0 < den) (h : den ∣ num) :
    roundHalfEven num den = num / den := by
  simp [roundHalfEven, Nat.mod_eq_zero_of_dvd h, hden]

/-- A power of ten. -/
def powerOfTen (n : Nat) : Nat := Nat.pow 10 n

@[simp] theorem powerOfTen_zero : powerOfTen 0 = 1 := rfl

/-- A whole multiple of a power of ten: `digits · 10 ^ exponent`. -/
structure Decimal where
  digits : Nat
  exponent : Int
deriving DecidableEq, Repr

namespace Binary64

/-- The number at a place in the ascending list of the numbers that are not negative; past the
last finite one stands the infinity. -/
def ofPlace (negative : Bool) (place : Nat) : Binary64 :=
  if h : place < 2047 * fractions then
    .finite negative ⟨place / fractions, Nat.div_lt_of_lt_mul (by omega)⟩
      ⟨place % fractions, Nat.mod_lt _ (by decide)⟩
  else .infinity negative

/-- The power of two of the last kept bit of `num / den`: fifty-two places below the leading bit,
and never below the least power. -/
def lastBit (num den : Nat) : Int :=
  let estimate : Int := num.log2 - den.log2
  let leading :=
    if den <<< estimate.toNat ≤ num <<< (-estimate).toNat then estimate else estimate - 1
  max (leading - 52) (-1074)

/-- **The number nearest to `num / den`**; of two equally near ones the one with the even
significand. -/
def ofRatio (negative : Bool) (num den : Nat) : Binary64 :=
  if num = 0 then signedZero negative
  else
    let last := lastBit num den
    let kept := roundHalfEven (num <<< (-last).toNat) (den <<< last.toNat)
    ofPlace negative ((last + 1074).toNat * fractions + kept)

/-- The number nearest to a natural number. -/
def ofNat (n : Nat) : Binary64 := ofRatio false n 1

/-- The number nearest to an integer. -/
def ofInt (i : Int) : Binary64 := ofRatio (i < 0) i.natAbs 1

/-- The number nearest to a decimal. -/
def ofDecimal (negative : Bool) (d : Decimal) : Binary64 :=
  ofRatio negative (d.digits * powerOfTen d.exponent.toNat) (powerOfTen (-d.exponent).toNat)

end Binary64

end ItemConditions
