import ItemConditions.FileTree

/-!
# Item files

An item file is a file whose name has one of two endings. All item files at or below a place are
found, in the order of their names, directory by directory.

## Main definitions

* `FileTree.extension?`: the ending of a name
* `FileTree.isItemFile`: a path leads to an item file
* `FileTree.itemFiles`: the item files at or below a place
* `FileTree.findItems`: their paths

## Main results

* `FileTree.mem_itemFiles`: exactly the item files are found
-/

namespace ItemConditions.FileTree

/-- **The ending of a name**: what follows the last point, if anything stands before it. -/
def extension? (name : Text) : Option Text :=
  let ending := name.reverse.takeWhile (· != '.')
  if ending.length + 1 < name.length then some ending.reverse else none

/-- A name of an item file. -/
def isItemName (name : Text) : Bool :=
  match extension? name with
  | some ending => ending == "yml".toList || ending == "yaml".toList
  | none => false

/-- What stands at a place is an item file. -/
def isItemNode (place : Place) : Node → Bool
  | .file _ => place.getLast?.any isItemName
  | .directory => false

/-- **A path leads to an item file.** -/
def isItemFile (tree : FileTree) (path : Text) : Bool :=
  match tree.follow path with
  | .ok place => (tree.node? place).any (isItemNode place)
  | .error _ => false

/-- The item files at or below a place, by the names that lead from there, in no order. -/
def itemsBelow (tree : FileTree) (place : Place) : List Place :=
  tree.nodes.filterMap fun (other, node) =>
    if isItemNode other node then place.isPrefixOf? other else none

/-- The order of names, by the codes of their characters. -/
def nameLe : Text → Text → Bool
  | [], _ => true
  | _ :: _, [] => false
  | c :: s, d :: t => c.toNat < d.toNat || (c == d && nameLe s t)

/-- The order of places: name by name. -/
def placeLe : Place → Place → Bool
  | [], _ => true
  | _ :: _, [] => false
  | s :: p, t :: q => if s = t then placeLe p q else nameLe s t

/-- **The item files at or below a place**, in order. -/
def itemFiles (tree : FileTree) (place : Place) : List Place :=
  (tree.itemsBelow place).mergeSort placeLe

/-- A path with the names that lead further. -/
def extendPath (path : Text) (names : Place) : Text := names.foldl join path

/-- The paths of the item files at or below a path. -/
def findItems (tree : FileTree) (path : Text) : List Text :=
  match tree.follow path with
  | .ok place => (tree.itemFiles place).map (extendPath path)
  | .error _ => []

theorem isPrefixOf?_eq_some_iff {place other rest : Place} :
    place.isPrefixOf? other = some rest ↔ other = place ++ rest := by
  induction place generalizing other with
  | nil => simp [Text.isPrefixOf?_nil, eq_comm]
  | cons name place ih =>
    cases other with
    | nil => simp [Text.isPrefixOf?_cons_nil]
    | cons first other =>
      by_cases h : name = first
      · simp [Text.isPrefixOf?_cons_cons, h, ih]
      · simp [Text.isPrefixOf?_cons_cons, h, Ne.symm h]

/-- Exactly the item files at or below a place are found. -/
theorem mem_itemFiles (tree : FileTree) (place rest : Place) :
    rest ∈ tree.itemFiles place ↔
      ∃ node, (place ++ rest, node) ∈ tree.nodes ∧ isItemNode (place ++ rest) node := by
  simp only [itemFiles, List.mem_mergeSort, itemsBelow, List.mem_filterMap, Prod.exists,
    Option.ite_none_right_eq_some, isPrefixOf?_eq_some_iff]
  constructor
  · rintro ⟨other, node, hmem, hitem, rfl⟩
    exact ⟨node, hmem, hitem⟩
  · rintro ⟨node, hmem, hitem⟩
    exact ⟨_, node, hmem, hitem, rfl⟩

end ItemConditions.FileTree
