import ItemConditions.Binary64.Numeral
import ItemConditions.Text.Quoted
import ItemConditions.Yaml.Node
import ItemConditions.Yaml.Token

/-!
# What a scalar means

A plain scalar that has no tag of its own is null, a truth value, a whole number, another number or
a string, the first of these that its text spells. A quoted or a block scalar is a string.

## Main definitions

* `Yaml.isNullWord`, `Yaml.truth?`, `Yaml.whole?`, `Yaml.real?`: the spellings
* `Yaml.Node.ofPlain`: what a plain scalar means
* `Yaml.Node.ofScalar`: what a scalar with a tag means
-/

namespace ItemConditions.Yaml

/-- A word for null. -/
def isNullWord (t : Text) : Bool := ["null", "Null", "NULL", "~"].any fun w => w.toList == t

/-- A word for a truth value. -/
def truth? (t : Text) : Option Bool :=
  if ["true", "True", "TRUE"].any fun w => w.toList == t then some true
  else if ["false", "False", "FALSE"].any fun w => w.toList == t then some false
  else none

/-! ## Whole numbers -/

/-- The value of digits, at least one, in a base up to sixteen. -/
def digitsIn? (base : Nat) (t : Text) : Option Nat :=
  if t = [] then none
  else t.foldlM (fun n c => do
    let d ← Text.hexValue? c
    if d < base then some (base * n + d) else none) 0

/-- Decimal digits that start with a zero they could do without: they spell no number. -/
def hasIdleZero : Text → Bool
  | '0' :: c :: t => (c :: t).all Char.isDigit
  | _ => false

/-- A whole number without a sign: hexadecimal, octal, binary or decimal. -/
def unsignedWhole? : Text → Option Nat
  | '0' :: 'x' :: t => digitsIn? 16 t
  | '0' :: 'o' :: t => digitsIn? 8 t
  | '0' :: 'b' :: t => digitsIn? 2 t
  | t => if hasIdleZero t then none else digitsIn? 10 t

/-- **A whole number**, with a sign in front or not. -/
def whole? : Text → Option Int
  | '-' :: t => (unsignedWhole? t).map fun n => -n
  | '+' :: t => (unsignedWhole? t).map fun n => n
  | t => (unsignedWhole? t).map fun n => n

/-- The whole numbers that a spelling can mean at all: beyond them it means a 64-bit number. -/
def isMeantWhole (i : Int) : Bool :=
  -0x80000000000000000000000000000000 ≤ i && i ≤ 0xFFFFFFFFFFFFFFFFFFFFFFFFFFFFFFFF

/-- The fault of a whole number that is too large to be kept as one. -/
def wholeProblem (i : Int) : Problem :=
  .wrongType ("integer ".toList ++ '`' :: Text.ofInt i ++
    (if i < 0 then "` as i128" else "` as u128").toList) "any YAML value".toList

/-- The node of a whole number. -/
def Node.ofWhole (i : Int) : Except Problem Node :=
  if Number.leastWhole ≤ i ∧ i ≤ Number.greatestWhole then .ok (.number (.whole i))
  else .error (wholeProblem i)

/-! ## Other numbers -/

/-- **A 64-bit number**: the words for the values that are not finite, or a numeral of a finite
one. One plus may stand in front. -/
def real? (t : Text) : Option Binary64 :=
  let body :=
    match t with
    | '+' :: r => r
    | r => r
  let signs := t.head? == some '+' && body.head?.any fun c => c == '+' || c == '-'
  if signs then none
  else if [".inf", ".Inf", ".INF"].any fun w => w.toList == body then some (.infinity false)
  else if ["-.inf", "-.Inf", "-.INF"].any fun w => w.toList == t then some (.infinity true)
  else if [".nan", ".NaN", ".NAN"].any fun w => w.toList == t then some .nan
  else (Numeral.readScientific? body).filter Binary64.isFinite

/-- A text behind its sign. -/
def behindSign : Text → Text
  | '-' :: t => t
  | '+' :: t => t
  | t => t

/-! ## Scalars -/

/-- **What a plain scalar means.** -/
def Node.ofPlain (t : Text) : Except Problem Node :=
  if t = [] ∨ isNullWord t then .ok .null
  else
    match truth? t, (whole? t).filter isMeantWhole with
    | some b, _ => .ok (.bool b)
    | none, some i => Node.ofWhole i
    | none, none =>
      match if hasIdleZero (behindSign t) then none else real? t with
      | some x => .ok (.number (.real x))
      | none => .ok (.string t)

/-- A scalar that does not spell what its tag wants. -/
def mistagged (t : Text) (wanted : String) : Problem :=
  .wrongValue ("string ".toList ++ Text.quoted t) wanted.toList

/-- The tags of the four types that a scalar can be checked for. -/
def standardTag (name : String) : Tag := Utf8.encode ("tag:yaml.org,2002:" ++ name).toList

/-- A tag starts with an exclamation mark. -/
def startsWithMark (tag : Tag) : Bool := (Utf8.encode ['!']).isPrefixOf tag

/-- What a scalar with a tag means. The tags of truth values, numbers and null are enforced. One
that starts with an exclamation mark says nothing of the meaning; any other makes a string. -/
def Node.ofScalar (tag? : Option Tag) (t : Text) (isPlain : Bool) : Except Problem Node :=
  match tag?.filter fun tag => !startsWithMark tag with
  | none => if isPlain then Node.ofPlain t else .ok (.string t)
  | some tag =>
    if tag = standardTag "bool" then
      match truth? t with
      | some b => .ok (.bool b)
      | none => .error (mistagged t "a boolean")
    else if tag = standardTag "int" then
      match (whole? t).filter isMeantWhole with
      | some i => Node.ofWhole i
      | none => .error (mistagged t "an integer")
    else if tag = standardTag "float" then
      match real? t with
      | some x => .ok (.number (.real x))
      | none => .error (mistagged t "a float")
    else if tag = standardTag "null" then
      if isNullWord t then .ok .null else .error (mistagged t "null")
    else .ok (.string t)

end ItemConditions.Yaml
