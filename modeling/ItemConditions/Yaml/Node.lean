import ItemConditions.Value

/-!
# Nodes of a YAML document

The tree of a YAML document before it becomes a value: keys may be any nodes, and a node may have a
tag of the document's own.

## Main definitions

* `Yaml.Node`: a node
* `Yaml.Node.same`: equality of nodes, as keys are compared
-/

namespace ItemConditions.Yaml

/-- **A node.** -/
inductive Node where
  | null
  | bool (b : Bool)
  | number (n : Number)
  | string (s : Text)
  | sequence (items : List Node)
  | mapping (entries : List (Node × Node))
  | tagged (tag : Text) (content : Node)
deriving Repr, Inhabited

/-- A tag without the exclamation mark in front of it; the mark alone is a tag. -/
def bareTag (tag : Text) : Text :=
  match tag with
  | '!' :: c :: t => c :: t
  | t => t

/-- Equality of numbers as keys: a whole number equals no 64-bit number, and not-a-number equals
itself. -/
def sameKeyNumber : Number → Number → Bool
  | .whole i, .whole j => i == j
  | .real x, .real y => x.equals y || (x.isNaN && y.isNaN)
  | _, _ => false

namespace Node

mutual

/-- **Equality of nodes**: mappings are equal if they have the same keys with equal values, in
whatever order. -/
def same : Node → Node → Bool
  | .null, .null => true
  | .bool a, .bool b => a == b
  | .number m, .number n => sameKeyNumber m n
  | .string s, .string t => s == t
  | .sequence xs, .sequence ys => sameItems xs ys
  | .mapping es, .mapping fs => es.length == fs.length && sameEntries es fs
  | .tagged s x, .tagged t y => bareTag s == bareTag t && same x y
  | _, _ => false

/-- Equality item by item. -/
def sameItems : List Node → List Node → Bool
  | [], [] => true
  | x :: xs, y :: ys => same x y && sameItems xs ys
  | _, _ => false

/-- Every entry of the first list has an equal one in the second. -/
def sameEntries : List (Node × Node) → List (Node × Node) → Bool
  | [], _ => true
  | (key, x) :: es, fs => hasEntry key x fs && sameEntries es fs

/-- A list has an entry with this key and this value. -/
def hasEntry (key x : Node) : List (Node × Node) → Bool
  | [] => false
  | (k, y) :: fs => (same key k && same x y) || hasEntry key x fs

end

/-- One of the entries has this key. -/
def hasKey (key : Node) (entries : List (Node × Node)) : Bool :=
  entries.any fun (k, _) => same k key

mutual

/-- The number of nodes on the longest way down. -/
def height : Node → Nat
  | .sequence xs => heightItems xs + 1
  | .mapping es => heightEntries es + 1
  | .tagged _ x => height x + 1
  | _ => 1

/-- The height of the highest item. -/
def heightItems : List Node → Nat
  | [] => 0
  | x :: xs => max (height x) (heightItems xs)

/-- The height of the highest key or value. -/
def heightEntries : List (Node × Node) → Nat
  | [] => 0
  | (key, x) :: es => max (max (height key) (height x)) (heightEntries es)

end

end Node

end ItemConditions.Yaml
