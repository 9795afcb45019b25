import ItemConditions.ItemPath
import ItemConditions.Value

/-!
# Discovery

Where in an item condition scripts and commands stand: at `display.shiny`, and in every entry of
every list under `actions`, at `condition` and at `actions`.

## Main definitions

* `Value.truthy`: whether a field counts as set
* `Discovery.paths`: the paths of an item, in order
-/

namespace ItemConditions

/-- **A field that counts as set**: null, false, zero and the empty text do not; containers always
do. -/
def Value.truthy : Value → Bool
  | .null => false
  | .bool b => b
  | .number (.whole i) => i != 0
  | .number (.real x) => !x.isZero
  | .string s => !s.isEmpty
  | .sequence _ | .mapping _ => true

namespace Discovery

/-- A mapping has a field under the key that counts as set. -/
def hasField (key : Text) (v : Value) : Bool := (v.field? key).any Value.truthy

/-- The display's own script. -/
def displayPaths (item : Value) : List ItemPath :=
  if (item.field? "display".toList).any (hasField "shiny".toList) then
    [⟨["display".toList, "shiny".toList]⟩]
  else []

/-- The fields of an action entry, in order. -/
def entryFields : List Text := ["condition".toList, "actions".toList]

/-- The paths of one entry of a list of actions. -/
def entryPaths (list : Text) (index : Nat) (entry : Value) : List ItemPath :=
  (entryFields.filter fun field => hasField field entry).map fun field =>
    ⟨["actions".toList, list, Text.ofNat index, field]⟩

/-- The paths of a list of actions. -/
def listPaths (list : Text) : Value → List ItemPath
  | .sequence entries => entries.zipIdx.flatMap fun (entry, index) => entryPaths list index entry
  | _ => []

/-- The paths under the actions of an item. -/
def actionPaths (item : Value) : List ItemPath :=
  match item.field? "actions".toList with
  | some (.mapping lists) => lists.flatMap fun (list, entries) => listPaths list entries
  | _ => []

/-- **The paths of an item**: the display's first, then those of the actions by list, by index, and
condition before actions. -/
def paths (item : Value) : List ItemPath := displayPaths item ++ actionPaths item

end Discovery

end ItemConditions
