/-!
# Numbers of 64 bits

A binary floating-point number of 64 bits, given by its fields. A finite number is
`± significand · 2 ^ power`; the fields leave one spelling for each number, apart from the two
zeros.

## Main definitions

* `Binary64`: not a number, an infinity, or a sign with an exponent field and a fraction field
* `Binary64.significand`, `Binary64.power`: the exact value of a finite number
* `Binary64.ratio`: the same as a quotient
* `Binary64.equals`: equality of numbers, where the zeros agree and not-a-number agrees with nothing

## Main results

* `Binary64.equals_self_iff`: a number equals itself unless it is not a number
-/

namespace ItemConditions

/-- The number of fractions, which have fifty-two bits. -/
abbrev Binary64.fractions : Nat := 0x10000000000000

/-- **A 64-bit floating-point number**, by its fields. -/
inductive Binary64 where
  | nan
  | infinity (negative : Bool)
  | finite (negative : Bool) (exponent : Fin 2047) (fraction : Fin Binary64.fractions)
deriving DecidableEq, Repr

namespace Binary64

/-- The zero with a sign. -/
def signedZero (negative : Bool) : Binary64 := .finite negative 0 0

/-- The positive zero. -/
def zero : Binary64 := signedZero false

instance : Inhabited Binary64 := ⟨zero⟩

/-- The whole number that stands before the power of two, for given fields. -/
def significand (exponent : Fin 2047) (fraction : Fin fractions) : Nat :=
  if exponent.val = 0 then fraction.val else fractions + fraction.val

/-- The power of two, for a given exponent field. -/
def power (exponent : Fin 2047) : Int := max exponent.val 1 - 1075

/-- A quotient of natural numbers. -/
structure Ratio where
  num : Nat
  den : Nat

/-- The exact value of the fields, without the sign. -/
def ratio (e : Fin 2047) (f : Fin fractions) : Ratio :=
  ⟨significand e f <<< (power e).toNat, 1 <<< (-power e).toNat⟩

/-- Neither an infinity nor not a number. -/
def isFinite : Binary64 → Bool
  | .finite .. => true
  | _ => false

/-- Not a number. -/
def isNaN : Binary64 → Bool
  | .nan => true
  | _ => false

/-- One of the two zeros. -/
def isZero : Binary64 → Bool
  | .finite _ e f => e.val == 0 && f.val == 0
  | _ => false

/-- A minus sign stands in front: also true of the negative zero. -/
def isNegative : Binary64 → Bool
  | .nan => false
  | .infinity negative => negative
  | .finite negative _ _ => negative

/-- The number with the other sign. -/
def neg : Binary64 → Binary64
  | .nan => .nan
  | .infinity negative => .infinity !negative
  | .finite negative e f => .finite (!negative) e f

/-- **Equality of numbers**: the two zeros are equal, and not-a-number equals nothing. -/
def equals (x y : Binary64) : Bool :=
  !x.isNaN && (x == y || (x.isZero && y.isZero))

/-- A number equals itself unless it is not a number. -/
theorem equals_self_iff (x : Binary64) : x.equals x = true ↔ x ≠ .nan := by
  cases x <;> simp [equals, isNaN]

/-- The whole part of a number that is not negative, and zero for every other: digits after the
point are dropped, a number too large for `limit` counts as `limit`. -/
def wholePart (limit : Nat) : Binary64 → Nat
  | .nan => 0
  | .infinity true => 0
  | .infinity false => limit
  | .finite true _ _ => 0
  | .finite false e f =>
    min limit ((significand e f <<< (power e).toNat) >>> (-power e).toNat)

end Binary64

end ItemConditions
