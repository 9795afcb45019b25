import ItemConditions.FileTree.Items

/-!
# Backups

A copy of a file stands beside it, and an archive of the item files of a directory beside the
directory. Both have a stamp in their names. An archive is begun before the item files are read, and
stays as far as it got if one of them cannot be read.

## Main definitions

* `FileTree.lastName?`, `FileTree.parentPath`: the two parts of a path
* `FileTree.copyBeside`: the copy of a file
* `FileTree.pack`: the entries of an archive, file by file
* `FileTree.archiveBeside`: the archive of a directory
* `FileTree.BackupError`: why there is no backup
-/

namespace ItemConditions.FileTree

/-- Why there is no backup. -/
inductive BackupError where
  | notFile
  | notDirectory
  | noItems
  | system (e : FileError)
  /-- An item file cannot be read. The archive that was begun is left in the tree. -/
  | unfinished (e : FileError) (left : FileTree)
deriving DecidableEq, Repr

/-- The wording of the error. -/
def BackupError.message : BackupError → String
  | .notFile => "not a file"
  | .notDirectory => "not a directory"
  | .noItems => "no item files to back up"
  | .system e | .unfinished e _ => e.message

/-- The tree that a backup leaves that fails. -/
def BackupError.left (tree : FileTree) : BackupError → FileTree
  | .unfinished _ left => left
  | _ => tree

/-! ## Parts of a path -/

/-- The names of a path without those at its end that lead nowhere. -/
def meaningfulNames (names : List Text) : List Text :=
  let rest := (names.reverse.dropWhile fun name => name == [] || name == ['.']).reverse
  if rest = [] then names.take 1 else rest

/-- **The last name of a path**, unless it leads back or stays. -/
def lastName? (path : Text) : Option Text :=
  match (meaningfulNames (Text.splitOn '/' path)).getLast? with
  | some name => if name = [] ∨ name = ['.'] ∨ name = ['.', '.'] then none else some name
  | none => none

/-- **The path without its last name.** The root lies in the working directory, for want of
another one. -/
def parentPath (path : Text) : Text :=
  match (meaningfulNames (Text.splitOn '/' path)) with
  | [[]] => ['.']
  | names =>
    match names.dropLast with
    | [] => []
    | more =>
      match meaningfulNames more with
      | [[]] => ['/']
      | more => List.intercalate ['/'] more

/-! ## Copies -/

/-- The path of the copy of a file. -/
def copyPath (path stamp : Text) : Text :=
  join (parentPath path) ((lastName? path).getD "items.yml".toList ++ '.' :: stamp ++ ".bak".toList)

/-- **A copy of a file beside it**: the path of the copy, and the tree with it. -/
def copyBeside (tree : FileTree) (path stamp : Text) : Except BackupError (Text × FileTree) :=
  if !tree.isFile path then .error .notFile
  else
    match tree.contents path with
    | .error e => .error (.system e)
    | .ok c =>
      match tree.write (copyPath path stamp) c with
      | .error e => .error (.system e)
      | .ok tree => .ok (copyPath path stamp, tree)

/-! ## Archives -/

/-- The path of the archive of a directory. -/
def archivePath (path stamp : Text) : Text :=
  join (parentPath path) ((lastName? path).getD "items".toList ++ '_' :: stamp ++ ".zip".toList)

/-- The name of an entry: names with slashes between them, and slashes for backslashes. -/
def entryName (names : Place) : Text :=
  (List.intercalate ['/'] names).map fun c => if c = '\\' then '/' else c

/-- The entries for item files below a place, which are read one after the other. At the first one
that cannot be read its entry is begun already, and holds nothing. -/
def pack (tree : FileTree) (place : Place) : List Place → Archive × Option FileError
  | [] => ([], none)
  | names :: more =>
    match tree.contentsAt (place ++ names) with
    | .error e => ([(entryName names, [])], some e)
    | .ok c =>
      let (archive, e?) := tree.pack place more
      ((entryName names, c.toBytes) :: archive, e?)

/-- An archive of the item files of a directory, beside it: its path, and the tree with it. -/
def archiveBeside (tree : FileTree) (path stamp : Text) : Except BackupError (Text × FileTree) :=
  match tree.follow path with
  | .error _ => .error .notDirectory
  | .ok place =>
    if tree.node? place ≠ some .directory then .error .notDirectory
    else if tree.itemFiles place = [] then .error .noItems
    else
      match tree.opened (archivePath path stamp) with
      | .error e => .error (.system e)
      | .ok target =>
        match tree.pack place (tree.itemFiles place) with
        | (archive, none) =>
          .ok (archivePath path stamp, tree.put target (.file (.archive archive)))
        | (archive, some e) => .error (.unfinished e (tree.put target (.file (.archive archive))))

end ItemConditions.FileTree
