import ItemConditions.Yaml.Body
import ItemConditions.Yaml.Node.Scalar

/-!
# From a body to its node

The events of a body are put together to one node. An alias puts the node of its anchor together
once more at its own place, so that a node nests as deep as the aliases in it lead; how deep a node
nests, and how many aliases are followed, is limited. Faults come in the order of the events.

## Main definitions

* `Yaml.Place`: where in the document a node stands
* `Yaml.Body.node`: the node at a position
* `Yaml.Node.ofBody`: the node of a body
-/

namespace ItemConditions.Yaml

/-! ## Places -/

/-- **Where in the document a node stands.** -/
structure Place where
  /-- The keys and indices that lead to it; `.` leads to the root. -/
  path : Text := ['.']
  /-- So many collections may still nest in it. -/
  depth : Nat := 128

namespace Place

/-- The place of an item. -/
def item (p : Place) (index : Nat) : Place :=
  ⟨p.path ++ '[' :: (Text.ofNat index ++ [']']), p.depth⟩

/-- The place of a value. A key that is no scalar is shown as a question mark. -/
def entry (p : Place) (key? : Option Text) : Place :=
  ⟨(if p.path = ['.'] then [] else p.path ++ ['.']) ++ key?.getD ['?'], p.depth⟩

/-- A fault of what stands at a place. -/
def fail {α : Type} (p : Place) (problem : Problem) (mark : Mark) : Except Fault α :=
  .error (.marked problem (if p.path = ['.'] then [] else p.path) mark)

/-- The place inside a collection, one level down. -/
def inside (p : Place) (mark : Mark) : Except Fault Place :=
  if p.depth = 0 then .error (.here .tooDeep mark) else .ok { p with depth := p.depth - 1 }

end Place

/-! ## Nodes -/

/-- The tag of a node that is the document's own: a text that starts with an exclamation mark. -/
def ownTag? (tag? : Option Tag) : Option Text :=
  match tag?.bind Utf8.decode? with
  | some ('!' :: t) => some (if t = [] then ['!'] else t)
  | _ => none

/-- The node under its own tag, if it has one. -/
def Node.under (tag? : Option Text) (n : Node) : Node :=
  match tag? with
  | some tag => .tagged tag n
  | none => n

/-- The words of a repeated key. -/
def Node.repeatedKey : Node → Text
  | .null => "with null key".toList
  | .bool b => "with key `".toList ++ (if b then "true" else "false").toList ++ ['`']
  | .number (.whole i) => "with key ".toList ++ Text.ofInt i
  | .number (.real x) => "with key ".toList ++ (x.toNumeral? false).getD (notFinite x).toList
  | .string s => "with key ".toList ++ Text.quoted s
  | _ => "in YAML map".toList
where
  /-- The words for the values that are not finite. -/
  notFinite (x : Binary64) : String :=
    if x.isNaN then ".nan" else if x.isNegative then "-.inf" else ".inf"

/-- How far a body has been read: a position, and the number of aliases followed so far. -/
structure Progress where
  position : Nat := 0
  aliases : Nat := 0

namespace Body

/-- The event at a position, or the fault that ended the body before it. -/
def part (b : Body) (position : Nat) : Except Fault (Part × Mark) :=
  match b.parts[position]? with
  | some part => .ok part
  | none => .error (b.fault?.getD (.general .severalDocuments))

/-- So many aliases may be followed. -/
def aliasLimit (b : Body) : Nat := 100 * b.parts.size

/-- The text of a key that is a scalar. -/
def keyText? : Part → Option Text
  | .scalar _ t _ => some t
  | _ => none

mutual

/-- **The node at a position.** -/
def node (b : Body) : Nat → Place → Progress → Except Fault (Node × Progress)
  | 0, _, _ => .error (.general .tooManyAliases)
  | fuel + 1, p, g => do
    let (part, mark) ← b.part g.position
    let next : Progress := { g with position := g.position + 1 }
    match part with
    | .alias number =>
      if b.aliasLimit < g.aliases + 1 then .error (.general .tooManyAliases)
      else
        let target := (b.position? number).getD b.parts.size
        -- Reading goes on behind the alias, but the aliases inside its node are counted.
        let (n, behind) ← node b fuel p ⟨target, g.aliases + 1⟩
        return (n, ⟨next.position, behind.aliases⟩)
    | .scalar tag? t isPlain =>
      match Node.ofScalar tag? t isPlain with
      | .ok n => return (n.under (ownTag? tag?), next)
      | .error problem => p.fail problem mark
    | .sequenceStart tag? =>
      let inner ← p.inside mark
      let (xs, next) ← items b fuel inner 0 next
      return ((Node.sequence xs).under (ownTag? tag?), next)
    | .mappingStart tag? =>
      let inner ← p.inside mark
      let (es, next) ← entries b fuel inner mark [] next
      return ((Node.mapping es).under (ownTag? tag?), next)
    | _ => return (.null, next)

/-- The items of a sequence, from an index on. -/
def items (b : Body) : Nat → Place → Nat → Progress → Except Fault (List Node × Progress)
  | 0, _, _, _ => .error (.general .tooManyAliases)
  | fuel + 1, p, index, g => do
    let (part, _) ← b.part g.position
    if part = .sequenceEnd then return ([], { g with position := g.position + 1 })
    else
      let (x, g) ← node b fuel (p.item index) g
      let (xs, g) ← items b fuel p (index + 1) g
      return (x :: xs, g)

/-- The entries of a mapping, behind those that are known. A key comes once. -/
def entries (b : Body) :
    Nat → Place → Mark → List (Node × Node) → Progress →
      Except Fault (List (Node × Node) × Progress)
  | 0, _, _, _, _ => .error (.general .tooManyAliases)
  | fuel + 1, p, mark, known, g => do
    let (part, _) ← b.part g.position
    if part = .mappingEnd then return (known, { g with position := g.position + 1 })
    else
      let (key, g) ← node b fuel p g
      if Node.hasKey key known then p.fail (.duplicateKey key.repeatedKey) mark
      else
        let (x, g) ← node b fuel (p.entry (keyText? part)) g
        entries b fuel p mark (known ++ [(key, x)]) g

end

/-- A bound on how far calls nest: no way down has more collections than the greatest depth, and no
collection more parts than the body. -/
def reach (b : Body) : Nat := 132 * (b.parts.size + 4)

end Body

/-- **The node of a body.** A fault behind the node, or anything behind the document, refuses it. -/
def Node.ofBody (b : Body) : Except Fault Node := do
  let (n, _) ← b.node b.reach {} {}
  match b.fault? with
  | some fault => .error fault
  | none => if b.continues then .error (.general .severalDocuments) else return n

end ItemConditions.Yaml
