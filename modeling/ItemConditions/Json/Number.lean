import ItemConditions.Binary64.Arithmetic
import ItemConditions.Binary64.Numeral
import ItemConditions.Value

/-!
# The number that digits spell

A JSON number becomes a significand of 64 bits and a power of ten. The significand takes on digits
as long as it has room for them; the digits that it leaves count only for the power. Significand and
power are rounded each for itself before they are multiplied or divided, so that the outcome may lie
beside the number nearest to what is written.

## Main definitions

* `Json.absorb`: the digits for which a significand has room
* `Json.Scaled`: a significand with its power of ten
* `Json.Scaled.toBinary64`: its value
* `Json.numberOfDigits?`: the number that the parts of a numeral spell
-/

namespace ItemConditions.Json

/-! ## Significands -/

/-- The greatest significand. -/
def greatestSignificand : Nat := 0xFFFFFFFFFFFFFFFF

/-- **The digits for which a significand has room** behind `n`: the significand with them, and the
digits that are left. -/
def absorb (n : Nat) : Text → Nat × Text
  | [] => (n, [])
  | c :: r =>
    let next := 10 * n + (c.toNat - '0'.toNat)
    if next ≤ greatestSignificand then absorb next r else (n, c :: r)

/-- **A significand with its power of ten**: `significand · 10 ^ exponent`. -/
structure Scaled where
  significand : Nat
  exponent : Int
deriving DecidableEq, Repr

namespace Scaled

/-- The significand of the digits before and behind a point, with a written exponent. A digit left
before the point raises the power, one taken on behind it lowers the power. -/
def ofDigits (whole places : Text) (shift : Int) : Scaled :=
  let (n, above) := absorb 0 whole
  let (n, below) := absorb n places
  ⟨n, above.length - (places.length - below.length) + shift⟩

/-- The number nearest to a power of ten. -/
def tenTo (n : Nat) : Binary64 := .ofDecimal false ⟨1, n⟩

/-- The greatest power of ten that is a finite number. -/
def greatestTen : Nat := 308

/-- **The value of a significand with its power of ten**: one product, or as many quotients as the
power needs. A power beyond the greatest makes everything but zero infinite, and one far enough
below the least makes it zero. -/
def toBinary64 (s : Scaled) : Binary64 :=
  let x := Binary64.ofNat s.significand
  if s.significand = 0 then x
  else
    match s.exponent with
    | .ofNat n => if n ≤ greatestTen then x.mul (tenTo n) else .infinity false
    | .negSucc n =>
      let n := n + 1
      if n ≤ greatestTen then x.div (tenTo n)
      else if n ≤ 2 * greatestTen then (x.div (tenTo greatestTen)).div (tenTo (n - greatestTen))
      else .zero

end Scaled

/-! ## Numbers -/

/-- The number of a significand that is all there is: a whole number if it lies in the range of
those, else the nearest 64-bit number. The zero with a minus is no whole number. -/
def numberOfSignificand (negative : Bool) (n : Nat) : Number :=
  let i : Int := if negative then -n else n
  if negative ∧ n = 0 then .real (.signedZero true)
  else if Number.leastWhole ≤ i ∧ i ≤ Number.greatestWhole then .whole i
  else .real (.ofRatio negative n 1)

/-- The number that the parts of a numeral spell, if it is finite: the digits before the point,
those behind it, and the exponent, of which the last two may be missing. -/
def numberOfDigits? (negative : Bool) (whole : Text) (places? : Option Text) (shift? : Option Int) :
    Option Number :=
  let (n, above) := absorb 0 whole
  if places?.isNone ∧ shift?.isNone ∧ above = [] then some (numberOfSignificand negative n)
  else
    let x := (Scaled.ofDigits whole (places?.getD []) (shift?.getD 0)).toBinary64
    if x.isFinite then some (.real (if negative then x.neg else x)) else none

end ItemConditions.Json
