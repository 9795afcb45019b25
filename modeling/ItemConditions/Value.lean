import ItemConditions.Binary64.Rounding
import ItemConditions.Entries

/-!
# Document values

The tree that a configuration document holds: scalars, sequences, and mappings whose keys keep
their order.

## Main definitions

* `Number`: a whole number or a 64-bit number
* `Value`: a node of the tree
* `Value.typeName`: the word for the type of a node
* `Value.same`: equality of trees, where the order of keys does not count
-/

namespace ItemConditions

/-- **A number of a document**: whole numbers stay whole, all others have 64 bits. -/
inductive Number where
  | whole (i : Int)
  | real (x : Binary64)
deriving DecidableEq, Repr

namespace Number

/-- The least whole number that is kept as one. -/
def leastWhole : Int := -0x8000000000000000

/-- The greatest whole number that is kept as one. -/
def greatestWhole : Int := 0xFFFFFFFFFFFFFFFF

/-- The 64-bit number nearest to a number. -/
def toBinary64 : Number → Binary64
  | .whole i => .ofInt i
  | .real x => x

/-- Equality of numbers of one kind; a whole number equals no 64-bit number. -/
def same : Number → Number → Bool
  | .whole i, .whole j => i == j
  | .real x, .real y => x.equals y
  | _, _ => false

end Number

/-- **A node of a document.** -/
inductive Value where
  | null
  | bool (b : Bool)
  | number (n : Number)
  | string (s : Text)
  | sequence (items : List Value)
  | mapping (entries : List (Text × Value))
deriving Repr, Inhabited

namespace Value

/-- The word for the type of a node. -/
def typeName : Value → String
  | .null => "null"
  | .bool _ => "bool"
  | .number _ => "number"
  | .string _ => "string"
  | .sequence _ => "sequence"
  | .mapping _ => "mapping"

/-- The value under a key of a mapping; `none` for other nodes. -/
def field? (key : Text) : Value → Option Value
  | .mapping es => Entries.get? key es
  | _ => none

/-- The sequence of texts. -/
def ofTexts (texts : List Text) : Value := .sequence (texts.map .string)

mutual

/-- **Equality of trees**: mappings are equal if they have the same keys with equal values, in
whatever order. -/
def same : Value → Value → Bool
  | .null, .null => true
  | .bool a, .bool b => a == b
  | .number m, .number n => m.same n
  | .string s, .string t => s == t
  | .sequence xs, .sequence ys => sameItems xs ys
  | .mapping es, .mapping fs => es.length == fs.length && sameEntries es fs
  | _, _ => false

/-- Equality item by item. -/
def sameItems : List Value → List Value → Bool
  | [], [] => true
  | x :: xs, y :: ys => same x y && sameItems xs ys
  | _, _ => false

/-- Every entry of the first list has an equal one in the second. -/
def sameEntries : List (Text × Value) → List (Text × Value) → Bool
  | [], _ => true
  | (key, x) :: es, fs =>
    (match Entries.get? key fs with
      | some y => same x y
      | none => false) && sameEntries es fs

end

end Value

end ItemConditions
