import ItemConditions.FileTree.Backup
import ItemConditions.Proofs.Entries
import ItemConditions.Proofs.Text.Separated

/-!
# What writing does to a tree of files

A write that succeeds puts one file at the place that its path leads to, and leaves every other
place as it was. A new file stands in nobody's way, so paths that led somewhere before still lead
there; and behind the copy of a file the file can be written unless the system refuses it. An
archive is packed file by file: it holds all item files, or those in front of the first one that
cannot be read.

## Main definitions

* `FileTree.IsTree`: everything stands in a directory
* `FileTree.Writes`: trees that differ at written places only
* `FileTree.entries`: the entries of an archive for all item files

## Main results

* `FileTree.follow_put`: a new file stands in nobody's way
* `FileTree.follow_append`: where a path starts and how it falls apart
* `FileTree.opened_eq_ok_iff`, `FileTree.opened_of_follow`: when a file is opened to be written
* `FileTree.opened_put`: a file behind its copy
* `FileTree.pack_of_readable`, `FileTree.exists_of_pack`: what is packed
* `FileTree.exists_of_copyBeside`, `FileTree.archiveBeside_cases`: what a copy and an archive put where
-/

namespace ItemConditions.FileTree

/-- **Everything stands in a directory.** -/
def IsTree (tree : FileTree) : Prop :=
  ∀ place node, tree.node? place = some node → tree.node? place.dropLast = some .directory

/-- **Trees that differ at written places only**, each of which holds what was written. -/
structure Writes (before after : FileTree) (written : List (Place × Contents)) : Prop where
  holds : ∀ place c, (place, c) ∈ written → after.node? place = some (.file c)
  elsewhere : ∀ place, place ∉ written.map Prod.fst → after.node? place = before.node? place
  here : after.here = before.here
  unreadable : after.unreadable = before.unreadable
  unwritable : after.unwritable = before.unwritable

variable {tree after : FileTree} {place other : Place} {path : Text} {c : Contents}

/-- A tree is told by its nodes. -/
theorem isTree_of_nodes
    (h : ∀ entry ∈ tree.nodes, tree.node? entry.1.dropLast = some .directory) : tree.IsTree := by
  intro place node hnode
  unfold node? at hnode
  split_ifs at hnode with hroot
  · rw [hroot]
    rfl
  · exact h _ (Entries.mem_of_get? hnode)

theorem node?_of_at?_eq_none (h : tree.at? path = none) (hplace : tree.follow path = .ok place) :
    tree.node? place = none := by
  rwa [at?, hplace] at h

theorem ne_nil_of_node?_eq_none (h : tree.node? place = none) : place ≠ [] := by
  rintro rfl
  simp [node?] at h

theorem ne_nil_of_node?_ne_directory (h : tree.node? place ≠ some .directory) : place ≠ [] := by
  rintro rfl
  exact h rfl

/-- One write. -/
theorem writes_put (h : place ≠ []) (c : Contents) :
    tree.Writes (tree.put place (.file c)) [(place, c)] where
  holds other d hd := by
    obtain ⟨rfl, rfl⟩ := Prod.mk.inj (List.mem_singleton.mp hd)
    rw [node?_put _ _ _ _ h, if_pos rfl]
  elsewhere other hother := by
    have hne : other ≠ place := by simpa using hother
    rw [node?_put _ _ _ _ h, if_neg hne]
  here := rfl
  unreadable := rfl
  unwritable := rfl

/-- Two writes at different places. -/
theorem writes_put_put (h : place ≠ []) (h' : other ≠ []) (hne : place ≠ other) (c d : Contents) :
    tree.Writes ((tree.put place (.file c)).put other (.file d)) [(place, c), (other, d)] where
  holds target e he := by
    rcases List.mem_cons.mp he with he | he
    · obtain ⟨rfl, rfl⟩ := Prod.mk.inj he
      rw [node?_put _ _ _ _ h', if_neg hne, node?_put _ _ _ _ h, if_pos rfl]
    · obtain ⟨rfl, rfl⟩ := Prod.mk.inj (List.mem_singleton.mp he)
      rw [node?_put _ _ _ _ h', if_pos rfl]
  elsewhere target htarget := by
    have hboth : target ≠ place ∧ target ≠ other := by simpa using htarget
    rw [node?_put _ _ _ _ h', if_neg hboth.2, node?_put _ _ _ _ h, if_neg hboth.1]
  here := rfl
  unreadable := rfl
  unwritable := rfl

/-! ## Paths in a tree with a new file -/

theorem step_put {next : Place} {name : Text} (hnew : tree.node? other = none)
    (h : tree.step place name = .ok next) (node : Node) :
    (tree.put other node).step place name = .ok next := by
  have hother := ne_nil_of_node?_eq_none hnew
  have hne : place ≠ other := by
    rintro rfl
    rw [step, hnew] at h
    simp at h
  have hnode : (tree.put other node).node? place = tree.node? place := by
    rw [node?_put _ _ _ _ hother, if_neg hne]
  rw [step, hnode]
  exact h

theorem walk_put {next : Place} {names : List Text} (hnew : tree.node? other = none)
    (h : tree.walk place names = .ok next) (node : Node) :
    (tree.put other node).walk place names = .ok next := by
  induction names generalizing place with
  | nil => exact h
  | cons name names ih =>
    rw [walk] at h
    split at h
    · next place' hstep =>
      rw [walk, step_put hnew hstep node]
      exact ih h
    · simp at h

theorem follow_eq_ok_iff : tree.follow path = .ok place ↔
    path ≠ [] ∧ tree.walk (tree.start path) (Text.splitOn '/' path) = .ok place := by
  rw [follow]
  split_ifs with hpath
  · simp [hpath]
  · simp [hpath]

/-- A new file stands in nobody's way. -/
theorem follow_put (hnew : tree.node? other = none) (h : tree.follow path = .ok place)
    (node : Node) : (tree.put other node).follow path = .ok place := by
  rw [follow_eq_ok_iff] at h ⊢
  exact ⟨h.1, walk_put hnew h.2 node⟩

theorem start_append (tree : FileTree) (h : path ≠ []) (more : Text) :
    tree.start (path ++ more) = tree.start path := by
  rw [start, start, List.head?_append_of_ne_nil path h]

/-- A walk falls apart anywhere. -/
theorem walk_append (tree : FileTree) (place : Place) (names more : List Text) :
    tree.walk place (names ++ more)
      = (tree.walk place names).bind fun mid => tree.walk mid more := by
  induction names generalizing place with
  | nil => rfl
  | cons name names ih =>
    rw [List.cons_append, walk, walk]
    cases tree.step place name with
    | error e => rfl
    | ok next => exact ih next

theorem walk_append_of_ok {mid : Place} {names : List Text} (h : tree.walk place names = .ok mid)
    (more : List Text) : tree.walk place (names ++ more) = tree.walk mid more := by
  rw [walk_append, h]
  rfl

theorem exists_of_walk_append {next : Place} {names more : List Text}
    (h : tree.walk place (names ++ more) = .ok next) :
    ∃ mid, tree.walk place names = .ok mid ∧ tree.walk mid more = .ok next := by
  rw [walk_append] at h
  cases hmid : tree.walk place names with
  | error e => simp [hmid, Except.bind] at h
  | ok mid => exact ⟨mid, rfl, by simpa [hmid, Except.bind] using h⟩

theorem walk_singleton (tree : FileTree) (place : Place) (name : Text) :
    tree.walk place [name] = tree.step place name := by
  rw [walk]
  split
  · next place' hstep => rw [hstep, walk]
  · next e hstep => rw [hstep]

/-- A step that stays does so in a directory. -/
theorem step_of_blank {next : Place} (h : tree.step place name = .ok next)
    (hname : name = [] ∨ name = ['.']) :
    next = place ∧ tree.node? place = some .directory := by
  rw [step] at h
  split at h
  · simp at h
  · simp at h
  · next hdirectory =>
    rw [if_pos hname] at h
    exact ⟨(Except.ok.inj h).symm, hdirectory⟩

/-- A path falls apart at a slash, and where it starts is told by the first part. -/
theorem follow_append (tree : FileTree) (front rest : Text) :
    tree.follow (front ++ '/' :: rest)
      = tree.walk (tree.start (front ++ ['/']))
          (Text.splitOn '/' front ++ Text.splitOn '/' rest) := by
  rw [follow, if_neg (by simp), Text.splitOn_append]
  cases front <;> rfl

/-- A path that leads to a file does not end with a slash. -/
theorem getLast?_ne_slash (h : tree.follow path = .ok place)
    (hfile : tree.node? place = some (.file c)) : path.getLast? ≠ some '/' := by
  intro hlast
  obtain ⟨front, rfl⟩ := List.getLast?_eq_some_iff.mp hlast
  have hempty : Text.splitOn '/' [] = [[]] := rfl
  rw [follow_append, hempty] at h
  obtain ⟨mid, -, hstep⟩ := exists_of_walk_append h
  obtain ⟨rfl, hdirectory⟩ := step_of_blank (walk_singleton tree mid [] ▸ hstep) (Or.inl rfl)
  rw [hdirectory] at hfile
  simp at hfile

/-! ## Writes -/

theorem permit_eq_ok_iff {α : Type} {refusals : List (Place × String)} {a b : α} :
    permit refusals place a = .ok b ↔ Entries.get? place refusals = none ∧ a = b := by
  rw [permit]
  split
  · next reason hreason => simp [hreason]
  · next hnone => simp [hnone]

/-- A file is opened at a place in a directory, unless a directory stands there or the system
refuses it. -/
theorem opened_of_follow (h : tree.follow path = .ok place) (hpath : path.getLast? ≠ some '/')
    (hparent : tree.node? place.dropLast = some .directory) :
    tree.opened path = if tree.node? place = some .directory then .error .isDirectory
      else permit tree.unwritable place place := by
  rw [opened, if_neg hpath, h]
  simp only [openedAt, hparent]
  split_ifs with hnode
  · rw [hnode]
  · cases hnode' : tree.node? place with
    | none => rfl
    | some node =>
      cases node with
      | file d => rfl
      | directory => exact absurd hnode' hnode

/-- Where a file is opened its directory is there, and no directory stands in the way. -/
theorem opened_eq_ok_iff : tree.opened path = .ok place ↔
    path.getLast? ≠ some '/' ∧ tree.follow path = .ok place ∧
      tree.node? place.dropLast = some .directory ∧ tree.node? place ≠ some .directory ∧
      Entries.get? place tree.unwritable = none := by
  constructor
  · intro h
    rw [opened] at h
    split_ifs at h with hpath
    · split at h <;> simp at h
    · split at h
      · simp at h
      · next target htarget =>
        rw [openedAt] at h
        split at h
        · simp at h
        · next hparent hdirectory =>
          obtain ⟨hpermitted, rfl⟩ := permit_eq_ok_iff.mp h
          exact ⟨hpath, htarget, hparent, hdirectory, hpermitted⟩
        · simp at h
        · simp at h
  · rintro ⟨hpath, hplace, hparent, hdirectory, hpermitted⟩
    rw [opened_of_follow hplace hpath hparent, if_neg hdirectory]
    exact permit_eq_ok_iff.mpr ⟨hpermitted, rfl⟩

/-- A file in a tree is opened unless the system refuses it. -/
theorem opened_of_file (htree : tree.IsTree) (h : tree.follow path = .ok place)
    (hfile : tree.node? place = some (.file c)) :
    tree.opened path = permit tree.unwritable place place := by
  have hdirectory : tree.node? place ≠ some .directory := by simp [hfile]
  rw [opened_of_follow h (getLast?_ne_slash h hfile) (htree place _ hfile), if_neg hdirectory]

theorem write_eq_ok_iff : tree.write path c = .ok after ↔
    ∃ place, tree.opened path = .ok place ∧ after = tree.put place (.file c) := by
  rw [write]
  split
  · next e he => simp [he]
  · next place hplace => simp [hplace, eq_comm]

theorem ne_nil_of_opened (h : tree.opened path = .ok place) : place ≠ [] :=
  ne_nil_of_node?_ne_directory (opened_eq_ok_iff.mp h).2.2.2.1

/-- A new file in a directory is one more thing that stands in a directory. -/
theorem IsTree.put (htree : tree.IsTree) (h : tree.opened path = .ok place) (c : Contents) :
    (tree.put place (.file c)).IsTree := by
  obtain ⟨-, -, hparent, hdirectory, -⟩ := opened_eq_ok_iff.mp h
  have hput (other : Place) := node?_put tree place other (.file c) (ne_nil_of_opened h)
  have hstays (other : Place) (hother : tree.node? other = some .directory) :
      (tree.put place (.file c)).node? other = some .directory := by
    rw [hput, if_neg, hother]
    rintro rfl
    exact hdirectory hother
  intro other node hnode
  rw [hput] at hnode
  split_ifs at hnode with hother
  · rw [hother]
    exact hstays _ hparent
  · exact hstays _ (htree other node hnode)

/-- A file behind its copy: its path still leads to it, and it is opened unless the system
refuses it. -/
theorem opened_put {copyAt : Text} {copy : Place} {d : Contents} (htree : tree.IsTree)
    (h : tree.follow path = .ok place) (hfile : tree.node? place = some (.file c))
    (hcopy : tree.opened copyAt = .ok copy) (hnew : tree.node? copy = none) :
    (tree.put copy (.file d)).opened path = permit tree.unwritable place place := by
  have hne : place ≠ copy := by
    rintro rfl
    rw [hfile] at hnew
    simp at hnew
  refine opened_of_file (htree.put hcopy d) (follow_put hnew h _) (c := c) ?_
  rw [node?_put _ _ _ _ (ne_nil_of_node?_eq_none hnew), if_neg hne, hfile]

/-! ## Copies -/

theorem contentsAt_eq_ok_iff : tree.contentsAt place = .ok c ↔
    tree.node? place = some (.file c) ∧ Entries.get? place tree.unreadable = none := by
  rw [contentsAt]
  split
  · next hnode => simp [hnode]
  · next hnode => simp [hnode]
  · next d hnode => simp [hnode, permit_eq_ok_iff, and_comm]

/-- **A copy that succeeds** has the contents of the file. -/
theorem exists_of_copyBeside {stamp p : Text} (h : tree.copyBeside path stamp = .ok (p, after)) :
    ∃ place copy c, tree.follow path = .ok place ∧ tree.node? place = some (.file c) ∧
      tree.opened (copyPath path stamp) = .ok copy ∧ after = tree.put copy (.file c) := by
  rw [copyBeside] at h
  split_ifs at h
  rw [contents] at h
  cases hplace : tree.follow path with
  | error e => simp [hplace] at h
  | ok place =>
    simp only [hplace] at h
    split at h
    · simp at h
    · next c hc =>
      split at h
      · simp at h
      · next made hmade =>
        obtain ⟨-, rfl⟩ := Prod.mk.inj (Except.ok.inj h)
        obtain ⟨copy, hcopy, rfl⟩ := write_eq_ok_iff.mp hmade
        exact ⟨place, copy, c, rfl, (contentsAt_eq_ok_iff.mp hc).1, hcopy, rfl⟩

/-! ## Archives -/

/-- The bytes of a file at a place. -/
def bytesAt (tree : FileTree) (place : Place) : Utf8.Bytes :=
  match tree.node? place with
  | some (.file c) => c.toBytes
  | _ => []

/-- The entry for an item file. -/
def entry (tree : FileTree) (place names : Place) : Text × Utf8.Bytes :=
  (entryName names, tree.bytesAt (place ++ names))

/-- **The entries for the item files below a place**, in order. -/
def entries (tree : FileTree) (place : Place) : Archive :=
  (tree.itemFiles place).map (tree.entry place)

/-- An archive is unfinished at the first item file that cannot be read: it has the entries for
those in front of it, and one with nothing in it. -/
def IsUnfinished (tree : FileTree) (place : Place) (files : List Place) (archive : Archive)
    (e : FileError) : Prop :=
  ∃ before names more, files = before ++ names :: more ∧
    (∀ b ∈ before, ∃ c, tree.contentsAt (place ++ b) = .ok c) ∧
    tree.contentsAt (place ++ names) = .error e ∧
    archive = before.map (tree.entry place) ++ [(entryName names, [])]

variable {files : List Place} {names : Place} {archive : Archive} {e : FileError} {stamp : Text}

theorem entry_of_contentsAt (h : tree.contentsAt (place ++ names) = .ok c) :
    tree.entry place names = (entryName names, c.toBytes) := by
  rw [entry, bytesAt, (contentsAt_eq_ok_iff.mp h).1]

/-- One more file that can be read is one more entry. -/
theorem pack_cons (h : tree.contentsAt (place ++ names) = .ok c) (files : List Place) :
    tree.pack place (names :: files)
      = (tree.entry place names :: (tree.pack place files).1, (tree.pack place files).2) := by
  rw [pack, h, entry_of_contentsAt h]

/-- What is packed: every file, or those in front of one that cannot be read. -/
theorem exists_of_pack (tree : FileTree) (place : Place) (files : List Place) :
    tree.pack place files = (files.map (tree.entry place), none) ∨
      ∃ archive e, tree.pack place files = (archive, some e) ∧
        tree.IsUnfinished place files archive e := by
  induction files with
  | nil => exact Or.inl rfl
  | cons names files ih =>
    cases hnames : tree.contentsAt (place ++ names) with
    | error e =>
      refine Or.inr ⟨[(entryName names, [])], e, ?_, [], names, files, rfl, ?_, hnames, rfl⟩
      · rw [pack, hnames]
      · simp
    | ok c =>
      rw [pack_cons hnames]
      rcases ih with hpack | ⟨archive, e, hpack, before, first, more, rfl, hbefore, hfirst, rfl⟩
      · exact Or.inl (by rw [hpack, List.map_cons])
      · refine Or.inr ⟨_, e, ?_, names :: before, first, more, rfl, ?_, hfirst, rfl⟩
        · rw [hpack]
          rfl
        · exact List.forall_mem_cons.mpr ⟨⟨c, hnames⟩, hbefore⟩

/-- All files are packed if all can be read. -/
theorem pack_of_readable (h : ∀ b ∈ files, ∃ c, tree.contentsAt (place ++ b) = .ok c) :
    tree.pack place files = (files.map (tree.entry place), none) := by
  rcases exists_of_pack tree place files with
    hpack | ⟨-, e, -, before, names, more, rfl, -, hnames, -⟩
  · exact hpack
  · obtain ⟨c, hc⟩ := h names (by simp)
    rw [hc] at hnames
    simp at hnames

/-- **All that an archive can come to**: it is not begun, it holds the item files of the directory,
or it is left unfinished. -/
theorem archiveBeside_cases (tree : FileTree) (path stamp : Text) :
    (∃ fault, tree.archiveBeside path stamp = .error fault ∧ fault.left tree = tree) ∨
      ∃ place target, tree.follow path = .ok place ∧
        tree.opened (archivePath path stamp) = .ok target ∧
        (tree.archiveBeside path stamp = .ok (archivePath path stamp,
            tree.put target (.file (.archive (tree.entries place)))) ∨
          ∃ archive e, tree.IsUnfinished place (tree.itemFiles place) archive e ∧
            tree.archiveBeside path stamp
              = .error (.unfinished e (tree.put target (.file (.archive archive))))) := by
  unfold archiveBeside
  split
  · exact Or.inl ⟨_, rfl, rfl⟩
  · next place hplace =>
    split_ifs
    · exact Or.inl ⟨_, rfl, rfl⟩
    · exact Or.inl ⟨_, rfl, rfl⟩
    · split
      · exact Or.inl ⟨_, rfl, rfl⟩
      · next target htarget =>
        refine Or.inr ⟨place, target, hplace, htarget, ?_⟩
        rcases exists_of_pack tree place (tree.itemFiles place) with
          hpack | ⟨archive, e, hpack, hunfinished⟩
        · rw [hpack]
          exact Or.inl rfl
        · rw [hpack]
          exact Or.inr ⟨archive, e, hunfinished, rfl⟩

end ItemConditions.FileTree
