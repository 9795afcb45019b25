import ItemConditions.Proofs.FileTree

/-!
# Trees as a system has them

In a tree as a system has it nothing stands at a place twice, everything has a name and stands in a
directory, and the working directory is there. Writing files one after the other keeps it so: a path
that is followed leads from names to names.

## Main definitions

* `FileTree.IsName`, `FileTree.IsSound`: names of files, and trees as a system has them
* `FileTree.Reaches`: trees that are reached by writing files

## Main results

* `FileTree.IsSound.isName_of_follow`: the names that a path leads to
* `FileTree.IsSound.write`, `FileTree.IsSound.of_reaches`: one write, and any number of them
-/

namespace ItemConditions.FileTree

/-- **A name of a file or a directory**: it is not empty, holds no slash, and is none of the two
that stay and lead back. -/
def IsName (name : Text) : Prop := name ≠ [] ∧ '/' ∉ name ∧ name ≠ ['.'] ∧ name ≠ ['.', '.']

instance : DecidablePred IsName := fun _ => inferInstanceAs (Decidable (_ ∧ _))

/-- **A tree as a system has it**: nothing stands at a place twice, everything stands in a directory
and has a name, and the working directory is one. -/
structure IsSound (tree : FileTree) : Prop where
  distinct : (Entries.keys tree.nodes).Nodup
  isTree : tree.IsTree
  isName : ∀ place ∈ Entries.keys tree.nodes, ∀ name ∈ place, IsName name
  here : tree.node? tree.here = some .directory

variable {tree after : FileTree} {place next : Place} {path name : Text} {names : List Text}
  {c : Contents}

/-! ## Names -/

/-- Everything that stands somewhere has a name. -/
theorem IsSound.isName_of_node? (htree : tree.IsSound) {node : Node}
    (h : tree.node? place = some node) : ∀ name ∈ place, IsName name := by
  rw [node?] at h
  split_ifs at h with hroot
  · simp [hroot]
  · exact htree.isName place (Entries.mem_keys_of_get? h)

theorem isName_of_step (hplace : ∀ name ∈ place, IsName name) (hslash : '/' ∉ name)
    (h : tree.step place name = .ok next) : ∀ name ∈ next, IsName name := by
  rw [step] at h
  split at h
  · simp at h
  · simp at h
  · split_ifs at h with hstay hback
    · obtain rfl := Except.ok.inj h
      exact hplace
    · obtain rfl := Except.ok.inj h
      exact fun name hname => hplace name ((List.dropLast_prefix place).mem hname)
    · obtain rfl := Except.ok.inj h
      rw [not_or] at hstay
      intro other hother
      rcases List.mem_append.mp hother with hother | hother
      · exact hplace other hother
      · obtain rfl := List.mem_singleton.mp hother
        exact ⟨hstay.1, hslash, hstay.2, hback⟩

theorem isName_of_walk (hplace : ∀ name ∈ place, IsName name) (hslash : ∀ name ∈ names, '/' ∉ name)
    (h : tree.walk place names = .ok next) : ∀ name ∈ next, IsName name := by
  induction names generalizing place with
  | nil =>
    obtain rfl := Except.ok.inj h
    exact hplace
  | cons name names ih =>
    obtain ⟨hname, hnames⟩ := List.forall_mem_cons.mp hslash
    rw [walk] at h
    split at h
    · next mid hmid => exact ih (isName_of_step hplace hname hmid) hnames h
    · simp at h

/-- **The names that a path leads to** are names of files. -/
theorem IsSound.isName_of_follow (htree : tree.IsSound) (h : tree.follow path = .ok place) :
    ∀ name ∈ place, IsName name := by
  refine isName_of_walk ?_ (fun name => Text.notMem_of_mem_splitOn) (follow_eq_ok_iff.mp h).2
  rw [start]
  split_ifs
  · simp
  · exact htree.isName_of_node? htree.here

/-! ## Writes -/

/-- **A write** into a tree as a system has it. -/
theorem IsSound.write (htree : tree.IsSound) (h : tree.write path c = .ok after) :
    after.IsSound := by
  obtain ⟨place, hopened, rfl⟩ := write_eq_ok_iff.mp h
  obtain ⟨-, hfollow, -, hdirectory, -⟩ := opened_eq_ok_iff.mp hopened
  refine ⟨Entries.nodup_keys_insert htree.distinct _ _, htree.isTree.put hopened c, ?_, ?_⟩
  · intro other hother
    rw [put, Entries.keys_insert] at hother
    split_ifs at hother
    · exact htree.isName other hother
    · rcases List.mem_append.mp hother with hother | hother
      · exact htree.isName other hother
      · obtain rfl := List.mem_singleton.mp hother
        exact htree.isName_of_follow hfollow
  · have hne : (tree.put place (.file c)).here ≠ place := fun hhere =>
      hdirectory (hhere ▸ htree.here)
    rw [node?_put _ _ _ _ (ne_nil_of_opened hopened), if_neg hne]
    exact htree.here

/-- **Trees that are reached by writing files**, one after the other. -/
inductive Reaches (tree : FileTree) : FileTree → Prop
  | refl : Reaches tree tree
  | write {mid after : FileTree} {path : Text} {c : Contents} (h : Reaches tree mid)
      (hwrite : mid.write path c = .ok after) : Reaches tree after

theorem reaches_put (h : tree.opened path = .ok place) (c : Contents) :
    tree.Reaches (tree.put place (.file c)) :=
  .write .refl (write_eq_ok_iff.mpr ⟨place, h, rfl⟩)

/-- **Any number of writes** into a tree as a system has it. -/
theorem IsSound.of_reaches (htree : tree.IsSound) (h : tree.Reaches after) : after.IsSound := by
  induction h with
  | refl => exact htree
  | write _ hwrite ih => exact ih.write hwrite

end ItemConditions.FileTree
