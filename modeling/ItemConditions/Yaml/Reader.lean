import ItemConditions.Yaml.Node.Composition
import ItemConditions.Yaml.Node.Merge

/-!
# Reading YAML

The value of a YAML text: its node, with merges done, where keys are written out as texts and a tag
becomes a mapping of one entry.

## Main definitions

* `Yaml.Node.toValue`: the value of a node
* `Yaml.read`: the value of a text
-/

namespace ItemConditions.Yaml

namespace Node

/-- The text of a key: strings, truth values and finite numbers have one. -/
def keyText : Node → Except GeneralProblem Text
  | .string s => .ok s
  | .bool b => .ok (if b then "true" else "false").toList
  | .number (.whole i) => .ok (Text.ofInt i)
  | .number (.real x) =>
    match x.toNumeral? true with
    | some t => .ok t
    | none => .error .keyNotFinite
  | _ => .error .keyNotText

/-- The key of a tag. -/
def tagKey (tag : Text) : Text := '!' :: bareTag tag

mutual

/-- **The value of a node.** A number that is not finite becomes null; of keys with one text the
later value stays, at the place of the earlier one. -/
def toValue : Node → Except GeneralProblem Value
  | .null => .ok .null
  | .bool b => .ok (.bool b)
  | .number (.whole i) => .ok (.number (.whole i))
  | .number (.real x) => .ok (if x.isFinite then .number (.real x) else .null)
  | .string s => .ok (.string s)
  | .sequence xs => (toValues xs).map .sequence
  | .mapping es => (toEntries es).map fun es => .mapping (Entries.ofList es)
  | .tagged tag x => (toValue x).map fun v => .mapping [(tagKey tag, v)]

/-- The values of items, in order. -/
def toValues : List Node → Except GeneralProblem (List Value)
  | [] => .ok []
  | x :: xs => do
    let v ← toValue x
    return v :: (← toValues xs)

/-- The keys and values of entries, in order. -/
def toEntries : List (Node × Node) → Except GeneralProblem (List (Text × Value))
  | [] => .ok []
  | (key, x) :: es => do
    let t ← keyText key
    let v ← toValue x
    return (t, v) :: (← toEntries es)

end

end Node

/-- **The value of a text.** -/
def read (t : Text) : Except Fault Value := do
  let n ← Node.ofBody (Body.ofText t)
  match n.merged.bind Node.toValue with
  | .ok v => .ok v
  | .error problem => .error (.general problem)

end ItemConditions.Yaml
