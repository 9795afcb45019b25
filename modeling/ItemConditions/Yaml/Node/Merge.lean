import ItemConditions.Yaml.Fault
import ItemConditions.Yaml.Node

/-!
# Merging mappings

A mapping with the key `<<` takes over the entries of the mapping under it, or of the mappings of
the list under it, as far as it does not have their keys. The entries come as they stand: a `<<`
among them is an ordinary key of the mapping that takes it over.

## Main definitions

* `Yaml.Node.mergeKey`: the key
* `Yaml.Node.merge`: the entries of one mapping after its merge
* `Yaml.Node.merged`: a node with all merges done

## Main results

* `Yaml.Node.mergedWithin_entry`: mappings of one entry
-/

namespace ItemConditions.Yaml.Node

/-- A mapping's entries. -/
abbrev Fields := List (Node × Node)

/-- The key of a merge. -/
def mergeKey : Node := .string "<<".toList

/-- The entries without one of them; the last entry moves into the gap. -/
def withoutEntry (i : Nat) (es : Fields) : Fields :=
  match es.getLast? with
  | some last => if i + 1 < es.length then (es.set i last).dropLast else es.dropLast
  | none => []

/-- The entries with those of another mapping behind them whose keys are new. -/
def takeOver (es : Fields) (more : Fields) : Fields :=
  more.foldl (fun es (key, x) => if hasKey key es then es else es ++ [(key, x)]) es

/-- The entries with those of each mapping of a list. -/
def takeOverAll (es : Fields) : List Node → Except GeneralProblem Fields
  | [] => .ok es
  | .mapping more :: xs => takeOverAll (takeOver es more) xs
  | .sequence _ :: _ => .error .mergeElementSequence
  | .tagged _ _ :: _ => .error .mergeTagged
  | _ :: _ => .error .mergeElementScalar

/-- **The entries of a mapping after its merge.** -/
def merge (es : Fields) : Except GeneralProblem Fields :=
  match es.findIdx? fun (key, _) => same key mergeKey with
  | none => .ok es
  | some i =>
    let rest := withoutEntry i es
    match es[i]?.map Prod.snd with
    | some (.mapping more) => .ok (takeOver rest more)
    | some (.sequence xs) => takeOverAll rest xs
    | some (.tagged _ _) => .error .mergeTagged
    | _ => .error .mergeOfScalar

/-- A function of nodes, at every item. The last item comes first, and a fault at it wins. -/
def mapBackwards {α β : Type} (f : α → Except GeneralProblem β) :
    List α → Except GeneralProblem (List β)
  | [] => .ok []
  | x :: xs => do
    let ys ← mapBackwards f xs
    return (← f x) :: ys

/-- All merges inside so many levels of a node. -/
def mergedWithin : Nat → Node → Except GeneralProblem Node
  | 0, n => .ok n
  | height + 1, n =>
    match n with
    | .mapping es => do
      let es ← merge es
      let es ← mapBackwards (fun (key, x) => return (key, ← mergedWithin height x)) es
      return .mapping es
    | .sequence xs => (mapBackwards (mergedWithin height) xs).map .sequence
    | .tagged tag x => (mergedWithin height x).map (.tagged tag)
    | n => .ok n

/-- **A node with all merges done.** Those of a mapping come before those of its values. -/
def merged (n : Node) : Except GeneralProblem Node := mergedWithin n.height n

/-- A mapping of one entry, whose key is that of no merge, has its merges in its value. -/
theorem mergedWithin_entry {height : Nat} {key : Text} {x : Node} (hkey : key ≠ "<<".toList)
    (h : mergedWithin height x = .ok x) :
    mergedWithin (height + 1) (.mapping [(.string key, x)]) = .ok (.mapping [(.string key, x)]) := by
  have hmerge : merge [(.string key, x)] = .ok [(.string key, x)] := by
    have hsame : same (.string key) mergeKey = false := by
      rw [mergeKey, same]
      exact beq_eq_false_iff_ne.mpr hkey
    simp [merge, hsame, List.findIdx?_cons]
  simp only [mergedWithin, hmerge, mapBackwards, bind, Except.bind, h]
  rfl

end ItemConditions.Yaml.Node
