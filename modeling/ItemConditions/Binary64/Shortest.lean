import ItemConditions.Binary64.Rounding

/-!
# The shortest decimal of a 64-bit number

Among the decimals that round to a number, the one with the fewest digits, and of those the
nearest one.

## Main definitions

* `Binary64.scale`: the number of digits before the point
* `Binary64.shortest`: the shortest decimal of a finite number

## Main results

* `Binary64.ofDecimal_of_shortestOfLength?`: a decimal that the search accepts rounds to the number
-/

namespace ItemConditions

/-- Which of two equally near decimals is taken. -/
inductive Tie where
  | upper
  | even
deriving DecidableEq, Repr

namespace Binary64

/-- The value is below `10 ^ k`. -/
def Ratio.ltPowerOfTen (v : Ratio) (k : Int) : Bool :=
  v.num * powerOfTen (-k).toNat < v.den * powerOfTen k.toNat

/-- The least `k` with the value below `10 ^ k`, found from an estimate of the logarithm. -/
def scale (v : Ratio) : Int :=
  let estimate : Int := ((v.num.log2 : Int) - v.den.log2 - 1) * 30103 / 100000 - 1
  ((List.range 5).map fun (i : Nat) => estimate + i).find? v.ltPowerOfTen |>.getD (estimate + 5)

/-- The decimal of `n` digits that rounds to the number, if there is one: one of the two
neighbours of the value on the grid of `n` digits, the nearer if both will do. -/
def shortestOfLength? (tie : Tie) (e : Fin 2047) (f : Fin fractions) (n : Nat) : Option Decimal :=
  let v := ratio e f
  let exponent := scale v - n
  let num := v.num * powerOfTen (-exponent).toNat
  let den := v.den * powerOfTen exponent.toNat
  let below := num / den
  let lower : Decimal := ⟨below, exponent⟩
  let upper : Decimal := ⟨below + 1, exponent⟩
  let hits (d : Decimal) : Bool := ofDecimal false d == .finite false e f
  match hits lower, hits upper with
  | false, false => none
  | true, false => some lower
  | false, true => some upper
  | true, true =>
    let rest := 2 * (num % den)
    if rest < den then some lower
    else if den < rest then some upper
    else match tie with
      | .upper => some upper
      | .even => some (if below % 2 = 0 then lower else upper)

/-- A decimal that the search accepts rounds to the number. -/
theorem ofDecimal_of_shortestOfLength? {tie : Tie} {e : Fin 2047} {f : Fin fractions} {n : Nat}
    {d : Decimal} (h : shortestOfLength? tie e f n = some d) :
    ofDecimal false d = .finite false e f := by
  unfold shortestOfLength? at h
  simp only at h
  split at h <;> rename_i hl hu <;> simp only [beq_eq_false_iff_ne, beq_iff_eq] at hl hu
  · cases h
  · cases h; exact hl
  · cases h; exact hu
  · split at h
    · cases h; exact hl
    · split at h
      · cases h; exact hu
      · cases tie
        · cases h; exact hu
        · simp only [Option.some.injEq] at h
          split at h <;> subst h <;> assumption

/-- The value itself, written out in full. -/
def exact (e : Fin 2047) (f : Fin fractions) : Decimal :=
  if 0 ≤ power e then ⟨significand e f <<< (power e).toNat, 0⟩
  else ⟨significand e f * Nat.pow 5 (-power e).toNat, power e⟩

/-- A decimal without zeros at the end of its digits. -/
def stripZeros (d : Decimal) : Nat → Decimal
  | 0 => d
  | fuel + 1 => if d.digits % 10 = 0 then stripZeros ⟨d.digits / 10, d.exponent + 1⟩ fuel else d

/-- **The shortest decimal of a finite number** without its sign; zero has the digit zero. -/
def shortest (tie : Tie) (e : Fin 2047) (f : Fin fractions) : Decimal :=
  if e.val = 0 ∧ f.val = 0 then ⟨0, 0⟩
  else
    let found := ((List.range 17).findSome? fun n => shortestOfLength? tie e f (n + 1)).getD
      (exact e f)
    stripZeros found found.digits.log2

end Binary64

end ItemConditions
