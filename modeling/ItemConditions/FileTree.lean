import ItemConditions.Archive
import ItemConditions.Entries

/-!
# Trees of files

Files and directories below a root, with a working directory. A path is a text with slashes; it is
followed from the working directory, or from the root if it starts with a slash, and every name but
the last one must be that of a directory. The system may refuse to read some files, and to write at
some places.

## Main definitions

* `FileTree`: the tree
* `FileTree.node?`, `FileTree.put`: what stands at a place
* `FileTree.ofList`: the tree with given files and directories
* `FileTree.changes`: the files that are new or changed
* `FileTree.follow`: the place that a path leads to
* `FileTree.opened`: the place of a file that is opened to be written
* `FileTree.read`, `FileTree.write`: the contents of files
* `FileError`: why there is nothing to read or to write

## Main results

* `FileTree.node?_put`: what a place holds after another one is written
-/

namespace ItemConditions

/-- The contents of a file. An archive is told by its entries. -/
inductive FileTree.Contents where
  | bytes (b : Utf8.Bytes)
  | archive (a : Archive)
deriving DecidableEq, Repr

/-- The bytes of a file. -/
def FileTree.Contents.toBytes : FileTree.Contents → Utf8.Bytes
  | .bytes b => b
  | .archive a => a.toBytes

/-- What stands at a place of a tree. -/
inductive FileTree.Node where
  | file (contents : FileTree.Contents)
  | directory
deriving DecidableEq, Repr

/-- A place in a tree: the names that lead to it from the root. -/
abbrev FileTree.Place := List Text

/-- **Files and directories below a root**, by their places. -/
structure FileTree where
  nodes : List (FileTree.Place × FileTree.Node) := []
  /-- The working directory. -/
  here : FileTree.Place := []
  /-- The files that cannot be read, with what the system says. -/
  unreadable : List (FileTree.Place × String) := []
  /-- The places where nothing can be written, with what the system says. -/
  unwritable : List (FileTree.Place × String) := []
deriving DecidableEq, Repr

/-- Why a file cannot be read or written. -/
inductive FileError where
  | notFound
  | notDirectory
  | isDirectory
  | notText
  /-- The system does not let it happen, and says why. -/
  | refused (reason : String)
deriving DecidableEq, Repr

/-- The wording of the error, as the system has it. -/
def FileError.message : FileError → String
  | .notFound => "No such file or directory (os error 2)"
  | .notDirectory => "Not a directory (os error 20)"
  | .isDirectory => "Is a directory (os error 21)"
  | .notText => "stream did not contain valid UTF-8"
  | .refused reason => reason

namespace FileTree

/-! ## Places -/

/-- What stands at a place. The root is a directory. -/
def node? (tree : FileTree) (place : Place) : Option Node :=
  if place = [] then some .directory else Entries.get? place tree.nodes

/-- The tree with something new at a place. -/
def put (tree : FileTree) (place : Place) (node : Node) : FileTree :=
  { tree with nodes := Entries.insert place node tree.nodes }

/-- The tree with the directories on the way to a place. -/
def makeParents (tree : FileTree) (place : Place) : FileTree :=
  ((List.range place.length).drop 1).foldl (fun tree n =>
    if (tree.node? (place.take n)).isSome then tree else tree.put (place.take n) .directory) tree

/-- **The tree with given files and directories**, and the directories on the way to them. -/
def ofList (nodes : List (Place × Node)) : FileTree :=
  nodes.foldl (fun tree (place, node) => (tree.makeParents place).put place node) {}

/-- What a place holds after another one is written. -/
theorem node?_put (tree : FileTree) (place other : Place) (node : Node) (h : place ≠ []) :
    (tree.put place node).node? other = if other = place then some node else tree.node? other := by
  unfold node? put
  by_cases ho : other = []
  · subst ho
    simp [h.symm]
  · simp [ho, Entries.get?_insert]

/-- **The files of a tree that are new or changed** since an earlier one, new files first. -/
def changes (before after : FileTree) : List (Place × Contents) :=
  let files := after.nodes.filterMap fun (place, node) =>
    match node with
    | .file c => if before.node? place = some node then none else some (place, c)
    | .directory => none
  let (old, new) := files.partition fun (place, _) => (before.node? place).isSome
  new ++ old

/-! ## Paths -/

/-- A step of a path from a place, which must be that of a directory: an empty name and a point stay
there, and two points go back. -/
def step (tree : FileTree) (place : Place) (name : Text) : Except FileError Place :=
  match tree.node? place with
  | none => .error .notFound
  | some (.file _) => .error .notDirectory
  | some .directory =>
    if name = [] ∨ name = ['.'] then .ok place
    else if name = ['.', '.'] then .ok place.dropLast
    else .ok (place ++ [name])

/-- The place behind all steps of a path. -/
def walk (tree : FileTree) : Place → List Text → Except FileError Place
  | place, [] => .ok place
  | place, name :: names =>
    match tree.step place name with
    | .ok next => walk tree next names
    | .error e => .error e

/-- The place where a path starts. -/
def start (tree : FileTree) (path : Text) : Place := if path.head? = some '/' then [] else tree.here

/-- The place that a path leads to, where there need not be anything. The empty path leads
nowhere. -/
def follow (tree : FileTree) (path : Text) : Except FileError Place :=
  if path = [] then .error .notFound else tree.walk (tree.start path) (Text.splitOn '/' path)

/-- What a path leads to. -/
def at? (tree : FileTree) (path : Text) : Option Node :=
  match tree.follow path with
  | .ok place => tree.node? place
  | .error _ => none

/-- A path leads to a file. -/
def isFile (tree : FileTree) (path : Text) : Bool :=
  match tree.at? path with
  | some (.file _) => true
  | _ => false

/-- A path leads to a directory. -/
def isDirectory (tree : FileTree) (path : Text) : Bool := tree.at? path == some .directory

/-- A path with one more name. -/
def join (path name : Text) : Text :=
  if path = [] ∨ path.getLast? = some '/' then path ++ name else path ++ '/' :: name

/-! ## Contents -/

/-- What the system permits at a place, or why it refuses. -/
def permit {α : Type} (refusals : List (Place × String)) (place : Place) (a : α) :
    Except FileError α :=
  match Entries.get? place refusals with
  | some reason => .error (.refused reason)
  | none => .ok a

/-- The contents of the file at a place. -/
def contentsAt (tree : FileTree) (place : Place) : Except FileError Contents :=
  match tree.node? place with
  | none => .error .notFound
  | some .directory => .error .isDirectory
  | some (.file c) => permit tree.unreadable place c

/-- The contents of the file that a path leads to. -/
def contents (tree : FileTree) (path : Text) : Except FileError Contents :=
  match tree.follow path with
  | .error e => .error e
  | .ok place => tree.contentsAt place

/-- The text of the file that a path leads to. -/
def read (tree : FileTree) (path : Text) : Except FileError Text :=
  match tree.contents path with
  | .error e => .error e
  | .ok c =>
    match Utf8.decode? c.toBytes with
    | some t => .ok t
    | none => .error .notText

/-- A place where a file is opened to be written: its directory must be there. -/
def openedAt (tree : FileTree) (place : Place) : Except FileError Place :=
  match tree.node? place, tree.node? place.dropLast with
  | some .directory, _ => .error .isDirectory
  | _, some .directory => permit tree.unwritable place place
  | _, some (.file _) => .error .notDirectory
  | _, none => .error .notFound

/-- The place of the file that is opened to be written at a path; the file need not be there. A
path that ends with a slash is no file's. -/
def opened (tree : FileTree) (path : Text) : Except FileError Place :=
  if path.getLast? = some '/' then
    match tree.walk (tree.start path)
      (Text.splitOn '/' (path.reverse.dropWhile (· == '/')).reverse) with
    | .error e => .error e
    | .ok _ => .error .isDirectory
  else
    match tree.follow path with
    | .error e => .error e
    | .ok place => tree.openedAt place

/-- The tree with new contents of the file that a path leads to. A write that fails leaves no
tree behind: nothing has changed. -/
def write (tree : FileTree) (path : Text) (c : Contents) : Except FileError FileTree :=
  match tree.opened path with
  | .error e => .error e
  | .ok place => .ok (tree.put place (.file c))

end FileTree

end ItemConditions
