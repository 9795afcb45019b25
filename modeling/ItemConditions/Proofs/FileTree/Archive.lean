import ItemConditions.Proofs.FileTree.Items
import Mathlib.Data.List.DropRight
import Mathlib.Data.List.Forall2

/-!
# Archives of item files

The archive of a directory has one entry for each item file at or below it, in order and with the
bytes of the file. The name of an entry is that of the file with slashes for backslashes. So a
backslash parts names like a slash does, and files that differ in nothing else share a name: the
archive can be unpacked without loss exactly if there are no such files with different contents.

## Main definitions

* `Archive.unpacked`: what an archive holds once it is unpacked
* `FileTree.pieces`: the names of a place where backslashes part them too
* `FileTree.IsEntryOf`: an entry for a file

## Main results

* `FileTree.splitOn_entryName`, `FileTree.entryName_eq_iff`: when two files share a name
* `FileTree.exists_follow_beside`: beside what a path leads to there is a directory
* `FileTree.archiveBeside_eq`: when an archive is written
* `FileTree.forall₂_entries`, `FileTree.nodup_entries_iff`, `FileTree.get?_unpacked_iff`: what it
  holds
* `FileTree.items_found_and_archived`: scans and archives miss no item file
-/

namespace ItemConditions

/-- **What an archive holds once it is unpacked**: a later entry takes the place of an earlier one
of the same name. -/
def Archive.unpacked (a : Archive) : Entries Utf8.Bytes := Entries.ofList a

namespace FileTree

variable {tree : FileTree} {place next names : Place} {path stamp name : Text}

/-! ## The names of entries -/

/-- **The names that a place has** where backslashes part them as well as slashes. -/
def pieces (names : Place) : List Text := names.flatMap (Text.splitOn '\\')

/-- A name with slashes for backslashes falls apart where it held them. -/
theorem splitOn_slashed (h : '/' ∉ name) :
    Text.splitOn '/' (name.map fun c => if c = '\\' then '/' else c)
      = Text.splitOn '\\' name := by
  induction name with
  | nil => rfl
  | cons c name ih =>
    obtain ⟨hc, h⟩ := not_or.mp (List.mem_cons.not.mp h)
    rw [List.map_cons, Text.splitOn, Text.splitOn, ih h]
    by_cases hback : c = '\\'
    · simp [hback]
    · simp [hback, Ne.symm hc]

theorem splitOn_entryName (hnames : names ≠ []) (h : ∀ name ∈ names, '/' ∉ name) :
    Text.splitOn '/' (entryName names) = pieces names := by
  induction names with
  | nil => exact absurd rfl hnames
  | cons name names ih =>
    have hfirst := splitOn_slashed (h name List.mem_cons_self)
    cases names with
    | nil => simpa [entryName, pieces] using hfirst
    | cons second names =>
      have hrest := ih (List.cons_ne_nil _ _) fun name hname =>
        h name (List.mem_cons_of_mem _ hname)
      rw [entryName, List.intercalate_cons_cons, List.append_assoc, List.map_append,
        List.singleton_append, List.map_cons, if_neg (by decide), Text.splitOn_append, hfirst]
      rw [entryName] at hrest
      rw [hrest]
      rfl

/-- Two places have one name in an archive if they have the same pieces. -/
theorem entryName_eq_iff {other : Place} (hnames : names ≠ []) (hother : other ≠ [])
    (h : ∀ name ∈ names, '/' ∉ name) (h' : ∀ name ∈ other, '/' ∉ name) :
    entryName names = entryName other ↔ pieces names = pieces other := by
  rw [← splitOn_entryName hnames h, ← splitOn_entryName hother h']
  refine ⟨congrArg (Text.splitOn '/'), fun heq => ?_⟩
  rw [← Text.intercalate_splitOn '/' (entryName names), heq, Text.intercalate_splitOn]

/-! ## The directory beside which the archive stands -/

/-- A name that leads nowhere: an empty one, and a point. -/
def isBlankName (name : Text) : Bool := name == [] || name == ['.']

theorem isBlankName_iff : isBlankName name ↔ name = [] ∨ name = ['.'] := by
  simp [isBlankName]

theorem meaningfulNames_eq (names : List Text) :
    meaningfulNames names =
      if names.rdropWhile isBlankName = [] then names.take 1 else names.rdropWhile isBlankName :=
  rfl

theorem meaningfulNames_isPrefix (names : List Text) : meaningfulNames names <+: names := by
  rw [meaningfulNames_eq]
  split_ifs
  · exact List.take_prefix 1 names
  · exact List.rdropWhile_prefix _ names

theorem meaningfulNames_ne_nil {names : List Text} (h : names ≠ []) :
    meaningfulNames names ≠ [] := by
  rw [meaningfulNames_eq]
  split_ifs with hrest
  · simpa using h
  · exact hrest

theorem walk_of_blanks (h : tree.walk place names = .ok next)
    (hnames : ∀ name ∈ names, isBlankName name) : next = place := by
  induction names with
  | nil => exact (Except.ok.inj h).symm
  | cons name names ih =>
    rw [walk] at h
    split at h
    · next mid hmid =>
      obtain ⟨rfl, -⟩ := step_of_blank hmid (isBlankName_iff.mp (hnames name List.mem_cons_self))
      exact ih h fun name hname => hnames name (List.mem_cons_of_mem _ hname)
    · simp at h

/-- Names at the end that lead nowhere may be left out. -/
theorem walk_meaningfulNames (h : tree.walk place names = .ok next) :
    tree.walk place (meaningfulNames names) = .ok next := by
  have hend : ∀ name ∈ names.rtakeWhile isBlankName, isBlankName name := fun name hname =>
    List.mem_rtakeWhile_imp hname
  have hwhole : names.rdropWhile isBlankName ++ names.rtakeWhile isBlankName = names :=
    List.rdropWhile_append_rtakeWhile
  rw [meaningfulNames_eq]
  split_ifs with hrest
  · rw [hrest, List.nil_append] at hwhole
    rw [hwhole] at hend
    obtain rfl := walk_of_blanks h hend
    rw [← List.take_append_drop 1 names] at h
    obtain ⟨mid, hmid, -⟩ := exists_of_walk_append h
    obtain rfl := walk_of_blanks hmid fun name hname => hend name (List.mem_of_mem_take hname)
    exact hmid
  · rw [← hwhole] at h
    obtain ⟨mid, hmid, hnext⟩ := exists_of_walk_append h
    obtain rfl := walk_of_blanks hnext hend
    exact hmid

theorem directory_of_step (h : tree.step place name = .ok next) :
    tree.node? place = some .directory := by
  rw [step] at h
  split at h
  · simp at h
  · simp at h
  · assumption

/-- The first names of a path lead on from where the path starts. The root is left out: its
path needs a slash of its own. -/
theorem follow_intercalate (tree : FileTree) (hfront : names <+: Text.splitOn '/' path)
    (hempty : names ≠ []) (hroot : names ≠ [[]]) :
    tree.follow (List.intercalate ['/'] names) = tree.walk (tree.start path) names := by
  obtain ⟨more, hmore⟩ := hfront
  have hslash : ∀ name ∈ names, '/' ∉ name := fun name hname =>
    Text.notMem_of_mem_splitOn (hmore ▸ List.mem_append_left more hname)
  have hsplit := Text.splitOn_intercalate hempty hslash
  have hpath : List.intercalate ['/'] names ≠ [] := fun hnil => hroot (by rw [← hsplit, hnil]; rfl)
  rw [follow, if_neg hpath, hsplit]
  obtain ⟨first, names, rfl⟩ := List.exists_cons_of_ne_nil hempty
  simp only [start, Text.head?_eq_iff_of_splitOn hsplit, Text.head?_eq_iff_of_splitOn hmore.symm]
  by_cases hfirst : first = []
  · subst hfirst
    have hnames : names ≠ [] := fun hnil => hroot (by rw [hnil])
    simp [hnames]
  · simp [hfirst]

/-- A single name is one in the working directory. -/
theorem follow_name (tree : FileTree) (hname : name ≠ []) (hslash : '/' ∉ name) :
    tree.follow name = tree.step tree.here name := by
  have hstart : name.head? ≠ some '/' := fun hc => hslash (List.mem_of_mem_head? hc)
  rw [follow, if_neg hname, start, if_neg hstart, Text.splitOn_eq_singleton hslash, walk_singleton]

/-- Beside what a path leads to there is a directory, in which every name is a step. -/
theorem exists_follow_beside (hhere : tree.node? tree.here = some .directory)
    (h : tree.follow path = .ok place) : ∃ parent, tree.node? parent = some .directory ∧
      ∀ name, name ≠ [] → '/' ∉ name →
        tree.follow (join (parentPath path) name) = tree.step parent name := by
  have hwalk := walk_meaningfulNames (follow_eq_ok_iff.mp h).2
  have hfront := meaningfulNames_isPrefix (Text.splitOn '/' path)
  unfold parentPath
  split
  · have hstay : tree.follow ['.'] = .ok tree.here := by
      rw [follow_name tree (by decide) (by decide), step, hhere]
      rfl
    exact ⟨tree.here, hhere, fun name _ hslash => follow_join hstay hslash⟩
  · next hnames =>
    split
    · exact ⟨tree.here, hhere, fun name => follow_name tree⟩
    · next hmore =>
      split
      · have htop : tree.follow ['/'] = .ok [] := rfl
        exact ⟨[], rfl, fun name _ hslash => follow_join htop hslash⟩
      · next hkept =>
        set all := meaningfulNames (Text.splitOn '/' path)
        have hall : all ≠ [] := fun hnil => hmore (by rw [hnil]; rfl)
        rw [← List.dropLast_concat_getLast hall] at hwalk
        obtain ⟨mid, hmid, hlast⟩ := exists_of_walk_append hwalk
        refine ⟨mid, directory_of_step (walk_singleton tree mid _ ▸ hlast),
          fun name _ hslash => follow_join ?_ hslash⟩
        rw [follow_intercalate tree ?_ (meaningfulNames_ne_nil hmore) hkept]
        · exact walk_meaningfulNames hmid
        · exact (meaningfulNames_isPrefix _).trans ((List.dropLast_prefix all).trans hfront)

theorem getLast?_join (path : Text) (h : name ≠ []) :
    (join path name).getLast? = name.getLast? := by
  rw [join]
  split_ifs
  · rw [List.getLast?_append_of_ne_nil path h]
  · rw [List.append_cons, List.getLast?_append_of_ne_nil _ h]

theorem slash_notMem_of_lastName? (h : lastName? path = some name) : '/' ∉ name := by
  rw [lastName?] at h
  split at h
  · next last hlast =>
    split_ifs at h
    obtain rfl := Option.some.inj h
    exact Text.notMem_of_mem_splitOn ((meaningfulNames_isPrefix _).mem (List.mem_of_getLast? hlast))
  · simp at h

theorem isName_archive (path : Text) (hstamp : '/' ∉ stamp) :
    IsName ((lastName? path).getD "items".toList ++ '_' :: stamp ++ ".zip".toList) := by
  have hbase : '/' ∉ (lastName? path).getD "items".toList := by
    cases hlast : lastName? path with
    | none => decide
    | some name => exact slash_notMem_of_lastName? hlast
  set base := (lastName? path).getD "items".toList
  have hmem : '_' ∈ base ++ '_' :: stamp ++ ".zip".toList := by simp
  refine ⟨List.ne_nil_of_mem hmem, ?_, ?_, ?_⟩
  · simp [hbase, hstamp]
  · intro hstay
    rw [hstay] at hmem
    exact absurd hmem (by decide)
  · intro hback
    rw [hback] at hmem
    exact absurd hmem (by decide)

/-- The archive of a path that leads somewhere goes into a directory. -/
theorem exists_follow_archivePath (hhere : tree.node? tree.here = some .directory)
    (h : tree.follow path = .ok place) (hstamp : '/' ∉ stamp) :
    ∃ target, tree.follow (archivePath path stamp) = .ok target ∧
      tree.node? target.dropLast = some .directory := by
  obtain ⟨parent, hdirectory, hstep⟩ := exists_follow_beside hhere h
  have hname := isName_archive path hstamp
  refine ⟨_, (hstep _ hname.1 hname.2.1).trans (step_of_isName hname hdirectory), ?_⟩
  rwa [List.dropLast_concat]

/-- An archive is written beside a directory with item files that can be read, unless a
directory stands there or the system refuses it. -/
theorem archiveBeside_eq {target : Place} (hhere : tree.node? tree.here = some .directory)
    (h : tree.follow path = .ok place) (hdirectory : tree.node? place = some .directory)
    (hitems : tree.itemFiles place ≠ []) (hstamp : '/' ∉ stamp)
    (hreadable : ∀ names ∈ tree.itemFiles place, ∃ c, tree.contentsAt (place ++ names) = .ok c)
    (hfollow : tree.follow (archivePath path stamp) = .ok target) :
    tree.archiveBeside path stamp =
      if tree.node? target = some .directory then .error (.system .isDirectory)
      else match Entries.get? target tree.unwritable with
        | some reason => .error (.system (.refused reason))
        | none => .ok (archivePath path stamp,
            tree.put target (.file (.archive (tree.entries place)))) := by
  obtain ⟨target', hfollow', hparent⟩ := exists_follow_archivePath hhere h hstamp
  obtain rfl : target = target' := Except.ok.inj (hfollow.symm.trans hfollow')
  have hlast : (archivePath path stamp).getLast? ≠ some '/' := by
    have hzip : ".zip".toList.getLast? = some 'p' := rfl
    rw [archivePath, getLast?_join _ (by simp), List.getLast?_append, hzip, Option.some_or]
    decide
  rw [archiveBeside, h]
  simp only [hdirectory, hitems, opened_of_follow hfollow hlast hparent, permit,
    pack_of_readable hreadable, ne_eq, not_true_eq_false, ↓reduceIte]
  split_ifs with hnode
  · rfl
  · cases Entries.get? target tree.unwritable <;> rfl

/-! ## What the archive holds -/

/-- **An entry for a file**: the bytes of the file under its name in the archive. -/
structure IsEntryOf (tree : FileTree) (place names : Place) (entry : Text × Utf8.Bytes) : Prop where
  name : entry.1 = entryName names
  bytes : ∃ c, tree.node? (place ++ names) = some (.file c) ∧ entry.2 = c.toBytes

theorem IsItemAt.bytesAt_eq (h : tree.IsItemAt place) :
    ∃ c, tree.node? place = some (.file c) ∧ tree.bytesAt place = c.toBytes := by
  obtain ⟨c, -, hnode, -⟩ := h
  exact ⟨c, hnode, by rw [bytesAt, hnode]⟩

/-- There is one entry for each item file, in their order. -/
theorem forall₂_entries (htree : tree.IsSound) (place : Place) :
    List.Forall₂ (tree.IsEntryOf place) (tree.itemFiles place) (tree.entries place) := by
  rw [entries, List.forall₂_map_right_iff, List.forall₂_same]
  intro names hnames
  obtain ⟨c, hnode, hbytes⟩ := ((mem_itemFiles_iff htree).mp hnames).bytesAt_eq
  exact ⟨rfl, c, hnode, hbytes⟩

section Names

variable (htree : tree.IsSound) (hdirectory : tree.node? place = some .directory)

include htree hdirectory

theorem entryName_eq_iff_of_mem {other : Place} (h : names ∈ tree.itemFiles place)
    (h' : other ∈ tree.itemFiles place) :
    entryName names = entryName other ↔ pieces names = pieces other := by
  have hproper : ∀ names ∈ tree.itemFiles place, names ≠ [] ∧ ∀ name ∈ names, '/' ∉ name := by
    intro names hnames
    obtain ⟨c, -, hnode, -⟩ := (mem_itemFiles_iff htree).mp hnames
    refine ⟨?_, fun name hname => ?_⟩
    · rintro rfl
      simp [hdirectory] at hnode
    · exact (htree.isName_of_node? hnode name (List.mem_append_right _ hname)).2.1
  exact entryName_eq_iff (hproper _ h).1 (hproper _ h').1 (hproper _ h).2 (hproper _ h').2

/-- **The names in an archive are distinct** if no two item files have the same pieces. -/
theorem nodup_entries_iff : ((tree.entries place).map Prod.fst).Nodup ↔
    ∀ a ∈ tree.itemFiles place, ∀ b ∈ tree.itemFiles place, pieces a = pieces b → a = b := by
  have hnodup : (tree.itemFiles place).Nodup :=
    (pairwise_itemFiles htree.distinct place).imp fun h => h.ne
  rw [entries, List.map_map, List.nodup_map_iff_inj_on hnodup]
  refine forall₂_congr fun a ha => forall₂_congr fun b hb => ?_
  exact imp_congr_left (entryName_eq_iff_of_mem htree hdirectory ha hb)

/-- **Every item file can be taken out of the archive** if those with the same pieces hold the same
bytes. -/
theorem get?_unpacked_iff :
    (∀ a ∈ tree.itemFiles place, Entries.get? (entryName a) (tree.entries place).unpacked
      = some (tree.bytesAt (place ++ a))) ↔
    ∀ a ∈ tree.itemFiles place, ∀ b ∈ tree.itemFiles place, pieces a = pieces b →
      tree.bytesAt (place ++ a) = tree.bytesAt (place ++ b) := by
  have hentry : tree.entry place
      = fun names => (entryName names, tree.bytesAt (place ++ names)) := rfl
  rw [entries, hentry, Archive.unpacked, Entries.get?_ofList_map_iff]
  refine forall₂_congr fun a ha => forall₂_congr fun b hb => ?_
  exact imp_congr_left (entryName_eq_iff_of_mem htree hdirectory ha hb)

end Names

/-! ## Scans and archives -/

/-- **Scans and archives miss no item file.** The paths that are found lead to the item files at or
below the given one, once each and in order. The archive of a directory with item files that can be
read is written, unless a directory stands where it goes or the system refuses it, and holds for
each of them, in the same order, one entry with its bytes. The names of the entries are distinct
exactly if no two item files have the same pieces; and every item file can be taken out of the
archive by its name exactly if those with the same pieces hold the same bytes. -/
theorem items_found_and_archived (htree : tree.IsSound) (h : tree.follow path = .ok place)
    (hstamp : '/' ∉ stamp) :
    let files := tree.itemFiles place
    let archive := tree.entries place
    tree.findItems path = files.map (extendPath path) ∧
    (∀ names ∈ files, tree.follow (extendPath path names) = .ok (place ++ names)) ∧
    (∀ names, names ∈ files ↔ tree.IsItemAt (place ++ names)) ∧
    files.Pairwise Precedes ∧
    (tree.node? place = some .directory → files ≠ [] →
      (∃ target, tree.follow (archivePath path stamp) = .ok target ∧
        ((∀ names ∈ files, Entries.get? (place ++ names) tree.unreadable = none) →
          tree.archiveBeside path stamp =
            if tree.node? target = some .directory then .error (.system .isDirectory)
            else match Entries.get? target tree.unwritable with
              | some reason => .error (.system (.refused reason))
              | none => .ok (archivePath path stamp, tree.put target (.file (.archive archive))))) ∧
      List.Forall₂ (tree.IsEntryOf place) files archive ∧
      ((archive.map Prod.fst).Nodup ↔ ∀ a ∈ files, ∀ b ∈ files, pieces a = pieces b → a = b) ∧
      ((∀ a ∈ files, Entries.get? (entryName a) archive.unpacked
          = some (tree.bytesAt (place ++ a))) ↔
        ∀ a ∈ files, ∀ b ∈ files, pieces a = pieces b →
          tree.bytesAt (place ++ a) = tree.bytesAt (place ++ b))) := by
  intro files archive
  refine ⟨by rw [findItems, h], fun names hnames => ?_, fun names => mem_itemFiles_iff htree,
    pairwise_itemFiles htree.distinct place, fun hdirectory hitems => ⟨?_, ?_, ?_, ?_⟩⟩
  · obtain ⟨c, -, hnode, -⟩ := (mem_itemFiles_iff htree).mp hnames
    exact follow_extendPath htree h hnode
  · obtain ⟨target, hfollow, -⟩ := exists_follow_archivePath htree.here h hstamp
    refine ⟨target, hfollow, fun hreadable => ?_⟩
    refine archiveBeside_eq htree.here h hdirectory hitems hstamp (fun names hnames => ?_) hfollow
    exact ((mem_itemFiles_iff htree).mp hnames).exists_contentsAt (hreadable names hnames)
  · exact forall₂_entries htree place
  · exact nodup_entries_iff htree hdirectory
  · exact get?_unpacked_iff htree hdirectory

/-- Two item files of a directory, one of them with a backslash in its name, among other things. -/
theorem items_found_and_archived_two :
    let file : Contents := .bytes (Utf8.encode "gem: {}\n".toList)
    let tree : FileTree :=
      { nodes := [(["d".toList], .directory), (["d".toList, "a".toList], .directory),
          (["d".toList, "a".toList, "b.yml".toList], .file file),
          (["d".toList, "a".toList, "b.txt".toList], .file file),
          (["d".toList, "a\\c.yaml".toList], .file file)] }
    let archive := tree.entries ["d".toList]
    tree.IsSound ∧ tree.findItems "d".toList = ["d/a/b.yml".toList, "d/a\\c.yaml".toList] ∧
      tree.archiveBeside "d".toList "1".toList
        = .ok ("d_1.zip".toList, tree.put ["d_1.zip".toList] (.file (.archive archive))) ∧
      (archive.map Prod.fst).Nodup := by
  intro file tree archive
  have htree : tree.IsSound := ⟨by decide, isTree_of_nodes (by decide), by decide, rfl⟩
  have hfollow : tree.follow "d".toList = .ok ["d".toList] := by decide
  have hstamp : '/' ∉ "1".toList := by decide
  have hfiles : tree.itemFiles ["d".toList]
      = [["a".toList, "b.yml".toList], ["a\\c.yaml".toList]] :=
    itemFiles_of_pairwise (by decide)
  obtain ⟨hfound, -, -, -, harchive⟩ := items_found_and_archived htree hfollow hstamp
  rw [hfiles] at hfound harchive
  obtain ⟨⟨target, htarget, hwritten⟩, -, hdistinct, -⟩ := harchive rfl (by decide)
  obtain rfl : ["d_1.zip".toList] = target := by
    have hbeside : tree.follow (archivePath "d".toList "1".toList) = .ok ["d_1.zip".toList] := by
      decide
    exact Except.ok.inj (hbeside.symm.trans htarget)
  have hreadable : ∀ names ∈ [["a".toList, "b.yml".toList], ["a\\c.yaml".toList]],
      Entries.get? (["d".toList] ++ names) tree.unreadable = none := fun _ _ => rfl
  exact ⟨htree, hfound, (hwritten hreadable).trans rfl, hdistinct.mpr (by decide)⟩

/-- A backslash falls together with a slash: of two item files one is lost. -/
theorem backslash_unlike_slash :
    let first : Contents := .bytes (Utf8.encode "y".toList)
    let second : Contents := .bytes (Utf8.encode "x".toList)
    let tree : FileTree :=
      { nodes := [(["d".toList], .directory), (["d".toList, "a".toList], .directory),
          (["d".toList, "a".toList, "b.yml".toList], .file first),
          (["d".toList, "a\\b.yml".toList], .file second)] }
    let archive := tree.entries ["d".toList]
    tree.IsSound ∧
      tree.itemFiles ["d".toList] = [["a".toList, "b.yml".toList], ["a\\b.yml".toList]] ∧
      tree.archiveBeside "d".toList "1".toList
        = .ok ("d_1.zip".toList, tree.put ["d_1.zip".toList] (.file (.archive archive))) ∧
      ¬ (archive.map Prod.fst).Nodup ∧ archive.unpacked = [("a/b.yml".toList, second.toBytes)] := by
  intro first second tree archive
  have hfiles : tree.itemFiles ["d".toList]
      = [["a".toList, "b.yml".toList], ["a\\b.yml".toList]] :=
    itemFiles_of_pairwise (by decide)
  have harchive : tree.entries ["d".toList]
      = [("a/b.yml".toList, first.toBytes), ("a/b.yml".toList, second.toBytes)] := by
    rw [entries, hfiles]
    rfl
  have hfollow : tree.follow "d".toList = .ok ["d".toList] := by decide
  have hbeside : tree.follow (archivePath "d".toList "1".toList) = .ok ["d_1.zip".toList] := by
    decide
  have hreadable : ∀ names ∈ tree.itemFiles ["d".toList],
      ∃ c, tree.contentsAt (["d".toList] ++ names) = .ok c := by
    rw [hfiles]
    simp only [List.forall_mem_cons]
    exact ⟨⟨first, rfl⟩, ⟨second, rfl⟩, by simp⟩
  have hwritten := archiveBeside_eq rfl hfollow rfl (hfiles ▸ List.cons_ne_nil _ _) (by decide)
    hreadable hbeside
  refine ⟨⟨by decide, isTree_of_nodes (by decide), by decide, rfl⟩, hfiles, hwritten.trans rfl, ?_⟩
  rw [show archive = _ from harchive]
  decide

end FileTree

end ItemConditions
