import ItemConditions.Binary64.Shortest
import ItemConditions.Text

/-!
# Numerals

How 64-bit numbers are read from text and written as text.

* A *plain* numeral is an optional sign, then decimal digits with at most one point and at least one
  digit. `Binary64.toPlain` writes the shortest one that reads back.
* A *scientific* numeral may have an exponent too, and the words for the infinities and for
  not-a-number are read as well.
* A *document* numeral has a point or an exponent, so that it never looks like a whole number;
  outside `10 ^ -5 ≤ x < 10 ^ 16` it has an exponent.

## Main definitions

* `Numeral.readPlain?`, `Numeral.readScientific?`: the readers
* `Binary64.toPlain`, `Binary64.toNumeral?`: the writers
-/

namespace ItemConditions

namespace Numeral

/-- The number that decimal digits denote, continuing from `n`. -/
def digitsValue (n : Nat) (digits : Text) : Nat :=
  digits.foldl (fun n c => 10 * n + (c.toNat - '0'.toNat)) n

/-- Digits with at most one point, as a decimal: at least one digit is needed, on either side of
the point. -/
def unsigned? (t : Text) : Option Decimal :=
  let whole := t.takeWhile Char.isDigit
  match t.dropWhile Char.isDigit with
  | [] => if whole = [] then none else some ⟨digitsValue 0 whole, 0⟩
  | '.' :: places =>
    if places.all Char.isDigit && !(whole.isEmpty && places.isEmpty) then
      some ⟨digitsValue (digitsValue 0 whole) places, -places.length⟩
    else none
  | _ => none

/-- A sign in front of a text, and the text behind it. -/
def splitSign : Text → Bool × Text
  | '-' :: t => (true, t)
  | '+' :: t => (false, t)
  | t => (false, t)

/-- **A plain numeral**, with a sign in front or not. -/
def readPlain? (t : Text) : Option Binary64 :=
  let (negative, digits) := splitSign t
  (unsigned? digits).map (Binary64.ofDecimal negative)

/-- The value of an exponent's digits with their sign. -/
def exponent? (t : Text) : Option Int :=
  let (negative, digits) := splitSign t
  (Text.toNat? digits).map fun n => if negative then -n else n

/-- The number of a decimal shifted by an exponent. An exponent that lies more than four hundred
places beyond the length of the digits cannot change the outcome and is cut to that. -/
def shifted (negative : Bool) (length : Nat) (d : Decimal) (exponent : Int) : Binary64 :=
  let reach : Int := length + 400
  Binary64.ofDecimal negative ⟨d.digits, d.exponent + max (-reach) (min reach exponent)⟩

/-- The words for the values that are not finite, in any case of letters. -/
def word? (negative : Bool) (t : Text) : Option Binary64 :=
  let lower := t.map Char.toLower
  if lower = "inf".toList ∨ lower = "infinity".toList then some (.infinity negative)
  else if lower = "nan".toList then some .nan
  else none

/-- **A scientific numeral**: a plain one, one with an exponent, or a word. -/
def readScientific? (t : Text) : Option Binary64 :=
  let (negative, body) := splitSign t
  let mantissa := body.takeWhile fun c => c.isDigit || c == '.'
  match body.dropWhile fun c => c.isDigit || c == '.' with
  | [] => (unsigned? mantissa).map (Binary64.ofDecimal negative)
  | c :: rest =>
    if c = 'e' ∨ c = 'E' then
      match unsigned? mantissa, exponent? rest with
      | some d, some x => some (shifted negative mantissa.length d x)
      | _, _ => none
    else if mantissa = [] then word? negative body
    else none

end Numeral

namespace Binary64

/-- Decimal digits with a point so many places from the right; zeros fill the places on either
side. -/
def positional (d : Decimal) : Text :=
  let digits := Text.ofNat d.digits
  match d.exponent with
  | .ofNat zeros => digits ++ Text.repeated zeros '0'
  | .negSucc n =>
    let places := n + 1
    if places < digits.length then
      digits.take (digits.length - places) ++ '.' :: digits.drop (digits.length - places)
    else '0' :: '.' :: (Text.repeated (places - digits.length) '0' ++ digits)

/-- A minus sign, if there is one. -/
def signText (negative : Bool) : Text := if negative then ['-'] else []

/-- **The plain numeral of a number**: the fewest digits that read back, never an exponent, no point
behind a whole number. -/
def toPlain : Binary64 → Text
  | .nan => "NaN".toList
  | .infinity negative => signText negative ++ "inf".toList
  | .finite negative e f => signText negative ++ positional (shortest .upper e f)

/-- One digit, a point if more follow, the others, and the exponent of the first. -/
def scientific (exponentPlus : Bool) (d : Decimal) : Text :=
  let digits := Text.ofNat d.digits
  let exponent := d.exponent + digits.length - 1
  let mantissa :=
    match digits with
    | first :: second :: more => first :: '.' :: second :: more
    | other => other
  mantissa ++ 'e' :: ((if exponentPlus ∧ 0 ≤ exponent then ['+'] else []) ++ Text.ofInt exponent)

/-- The document numeral of a finite number; `none` for the others. `exponentPlus` puts a plus
before exponents that are not negative. -/
def toNumeral? (exponentPlus : Bool) : Binary64 → Option Text
  | .finite negative e f =>
    let d := shortest .even e f
    let length := (Text.ofNat d.digits).length
    let point := d.exponent + length
    let body :=
      if d.digits = 0 then "0.0".toList
      else if -5 < point ∧ point ≤ 16 then
        if 0 ≤ d.exponent then positional d ++ ".0".toList else positional d
      else scientific exponentPlus d
    some (signText negative ++ body)
  | _ => none

end Binary64

end ItemConditions
