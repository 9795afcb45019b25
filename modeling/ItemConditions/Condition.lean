import ItemConditions.Binary64
import ItemConditions.Text.Blank

/-!
# Conditions

What one clause of a condition script, or one command of an action list, says about a player: a
balance, a level, a meta counter, a number of items of one of two item systems, a placeholder that
no rule knows, or text that is kept as it stands.

## Main definitions

* `Kind`: the kinds of condition, in their fixed order
* `ItemMatch`: how an item is recognised
* `Condition`: a condition with the fields of its kind
* `Condition.ofFields`: a condition of a kind from loose form fields
* `Comparator`: how a clause compares its placeholder with its amount
-/

namespace ItemConditions

/-- **The kinds of condition.** -/
inductive Kind where
  | money
  | level
  | playerMeta
  | mythicMobs
  | neigeItems
  | unknown
  | raw
deriving DecidableEq, Repr

namespace Kind

/-- The kinds in their fixed order. -/
def all : List Kind := [money, level, playerMeta, mythicMobs, neigeItems, unknown, raw]

/-- The word for a kind. -/
def name : Kind → String
  | money => "money"
  | level => "level"
  | playerMeta => "meta"
  | mythicMobs => "mythicmobs"
  | neigeItems => "neigeitems"
  | unknown => "unknown"
  | raw => "raw"

/-- The position of a kind in the fixed order. -/
def index (k : Kind) : Nat := all.findIdx (· = k)

/-- The kind of exactly this word. -/
def ofName? (t : Text) : Option Kind := all.find? fun k => k.name.toList = t

/-- The kind of a word in any case of ASCII letters, with blanks around it or not. -/
def read? (t : Text) : Option Kind := ofName? ((Text.trim t).map Char.toLower)

/-- What is said of a word that names no kind. -/
def unknownMessage (t : Text) : String := "unknown condition kind: " ++ String.ofList t

end Kind

/-- **How an item is recognised**: by its tag, and by its display name too if `useName` is set. -/
structure ItemMatch where
  name : Text
  key : Text
  amount : Binary64
  useName : Bool
deriving DecidableEq, Repr

/-- **A condition** with the fields of its kind. -/
inductive Condition where
  | money (amount : Binary64)
  | level (amount : Binary64)
  | playerMeta (key : Text) (amount : Binary64)
  | mythicMobs (item : ItemMatch)
  | neigeItems (item : ItemMatch)
  | unknown (key : Text) (amount : Binary64)
  | raw (text : Text)
deriving DecidableEq, Repr

/-- Equality of item matches, with amounts compared as numbers. -/
def ItemMatch.same (a b : ItemMatch) : Bool :=
  a.name == b.name && a.key == b.key && a.amount.equals b.amount && a.useName == b.useName

namespace Condition

/-- The kind of a condition. -/
def kind : Condition → Kind
  | money _ => .money
  | level _ => .level
  | playerMeta .. => .playerMeta
  | mythicMobs _ => .mythicMobs
  | neigeItems _ => .neigeItems
  | unknown .. => .unknown
  | raw _ => .raw

/-- The amount; kept text has the amount zero. -/
def amount : Condition → Binary64
  | money a | level a | playerMeta _ a | unknown _ a => a
  | mythicMobs m | neigeItems m => m.amount
  | raw _ => .zero

/-- The key; the balance and the level have fixed ones, and kept text is its own. -/
def key : Condition → Text
  | money _ => "balance".toList
  | level _ => "level".toList
  | playerMeta k _ | unknown k _ => k
  | mythicMobs m | neigeItems m => m.key
  | raw t => t

/-- The item match of the two kinds that have one. -/
def item? : Condition → Option ItemMatch
  | mythicMobs m | neigeItems m => some m
  | _ => none

/-- A condition that some rule recognised, not kept text. -/
def isStructured : Condition → Bool
  | raw _ => false
  | _ => true

/-- The condition with another amount; kept text has none to change. -/
def setAmount (a : Binary64) : Condition → Condition
  | money _ => money a
  | level _ => level a
  | playerMeta k _ => playerMeta k a
  | mythicMobs m => mythicMobs { m with amount := a }
  | neigeItems m => neigeItems { m with amount := a }
  | unknown k _ => unknown k a
  | raw t => raw t

/-- The condition with another name; only items have one. -/
def setName (n : Text) : Condition → Condition
  | mythicMobs m => mythicMobs { m with name := n }
  | neigeItems m => neigeItems { m with name := n }
  | other => other

/-- The condition with another key; the balance and the level keep theirs. -/
def setKey (k : Text) : Condition → Condition
  | money a => money a
  | level a => level a
  | playerMeta _ a => playerMeta k a
  | mythicMobs m => mythicMobs { m with key := k }
  | neigeItems m => neigeItems { m with key := k }
  | unknown _ a => unknown k a
  | raw _ => raw k

/-- The condition that matches by name or not; only items do. -/
def setUseName (u : Bool) : Condition → Condition
  | mythicMobs m => mythicMobs { m with useName := u }
  | neigeItems m => neigeItems { m with useName := u }
  | other => other

/-- A condition of a kind from loose form fields; fields that the kind lacks are dropped. -/
def ofFields (kind : Kind) (name key : Text) (amount : Binary64) (useName : Bool) : Condition :=
  match kind with
  | .money => money amount
  | .level => level amount
  | .playerMeta => playerMeta key amount
  | .mythicMobs => mythicMobs ⟨name, key, amount, useName⟩
  | .neigeItems => neigeItems ⟨name, key, amount, useName⟩
  | .unknown => unknown key amount
  | .raw => raw key

/-- Equality of conditions, with amounts compared as numbers: not-a-number equals nothing. -/
def same : Condition → Condition → Bool
  | money a, money b | level a, level b => a.equals b
  | playerMeta k a, playerMeta l b | unknown k a, unknown l b => k == l && a.equals b
  | mythicMobs m, mythicMobs n | neigeItems m, neigeItems n => m.same n
  | raw s, raw t => s == t
  | _, _ => false

@[simp] theorem kind_ofFields (k : Kind) (name key : Text) (a : Binary64) (u : Bool) :
    (ofFields k name key a u).kind = k := by
  cases k <;> rfl

end Condition

/-- How a clause compares its placeholder with its amount. -/
inductive Comparator where
  | ge
  | le
  | eq
  | gt
  | lt
deriving DecidableEq, Repr

namespace Comparator

/-- The comparators in their fixed order. -/
def all : List Comparator := [ge, le, eq, gt, lt]

/-- The sign of a comparator. -/
def sign : Comparator → String
  | ge => ">="
  | le => "<="
  | eq => "=="
  | gt => ">"
  | lt => "<"

/-- The comparator of exactly this sign. -/
def read? (t : Text) : Option Comparator := all.find? fun c => c.sign.toList = t

end Comparator

end ItemConditions
