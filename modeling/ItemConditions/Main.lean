import ItemConditions.CommandLine.Run
import Std.Time.Format

/-!
# The command line

A run of the program: what it needs to know of the files on disk is put into a tree, the command
runs on the tree, and the files that are new or changed in the tree go to disk. If the system
refuses one of them, that is put into the tree as well, and the command runs again.

## Main definitions

* `Disk.treeFor`: the tree for a command
* `Disk.store`: new and changed files on their way to disk
* `Disk.run`: the run of a command on the files on disk
* `main`: the program
-/

open ItemConditions ItemConditions.CommandLine

namespace ItemConditions.Disk

/-- The name of a path on disk. -/
def onDisk (t : Text) : String := String.ofList t

/-- What the system says when it refuses a file. -/
def reason : IO.Error → String
  | .noFileOrDirectory .. => FileError.notFound.message
  | .permissionDenied .. => "Permission denied (os error 13)"
  | e => toString e

/-- The bytes of a file on disk, or why it cannot be read. -/
def bytes (path : Text) : IO (Except String Utf8.Bytes) := do
  try
    return .ok (← IO.FS.readBinFile (onDisk path)).toList
  catch e => return .error (reason e)

/-- The names in the directory that a path leads to. -/
def names (path : Text) : IO (List Text) := do
  try
    let here ← IO.currentDir
    let entries ← (here / onDisk path).readDir
    return (entries.map fun e => e.fileName.toList).toList
  catch _ => return []

/-- What a path leads to on disk, put into the tree. -/
def probe (tree : FileTree) (path : Text) (isRead : Text → Bool) : IO FileTree := do
  match tree.follow path with
  | .error _ => return tree
  | .ok [] => return tree
  | .ok (name :: more) =>
    let place := name :: more
    let file := (← IO.currentDir) / onDisk path
    if ← file.isDir then return tree.put place .directory
    else if ← file.pathExists then
      if isRead (place.getLast?.getD []) then
        match ← bytes path with
        | .ok b => return tree.put place (.file (.bytes b))
        | .error why =>
          return { tree.put place (.file (.bytes [])) with
            unreadable := (place, why) :: tree.unreadable }
      else return tree.put place (.file (.bytes []))
    else return tree

/-- The paths to the directories on the way of a path. -/
def ways (path : Text) : List Text :=
  let names := Text.splitOn '/' path
  ((List.range names.length).drop 1).map fun n =>
    let way := List.intercalate ['/'] (names.take n)
    if way = [] then ['/'] else way

/-- A path and the directories on its way, put into the tree. -/
def probeAll (tree : FileTree) (path : Text) : IO FileTree := do
  let tree ← (ways path).foldlM (fun tree way => probe tree way fun _ => false) tree
  probe tree path fun _ => true

/-- Everything below a directory, put into the tree. Links to directories are not followed. -/
partial def probeBelow (tree : FileTree) (path : Text) : IO FileTree := do
  (← names path).foldlM (fun tree name => do
    let path := FileTree.join path name
    let file := (← IO.currentDir) / onDisk path
    let tree ← probe tree path FileTree.isItemName
    if (← file.isDir) && (← file.symlinkMetadata).type == .dir then probeBelow tree path
    else return tree) tree

/-- **The tree for a command.** -/
def treeFor (command : Command) : IO FileTree := do
  let here := (Text.splitOn '/' (← IO.currentDir).toString.toList).filter (· ≠ [])
  let start := FileTree.makeParents { here := here } (here ++ [[]])
  let tree ← command.files.foldlM probeAll start
  command.directories.foldlM (fun tree path => do probeBelow (← probeAll tree path) path) tree

/-- **New and changed files on their way to disk**, up to the first one that the system refuses. -/
def store (before after : FileTree) : IO (Option (FileTree.Place × String)) := do
  for (place, c) in before.changes after do
    try
      IO.FS.writeBinFile (onDisk ('/' :: List.intercalate ['/'] place)) ⟨c.toBytes.toArray⟩
    catch e => return some (place, reason e)
  return none

/-- The stamp of the present moment, for the names of backups. -/
def stamp : IO Text := do
  let now ← Std.Time.PlainDateTime.now
  return (now.format "uuuuMMdd-HHmmss").toList

/-- What the program says of itself, line by line. -/
def synopsis : List String :=
  ["Inspect and edit condition/action DSL fields of item config files",
    "",
    "ice items FILE",
    "ice paths FILE --item ITEM",
    "ice show FILE --item ITEM --path PATH [--json]",
    "ice commit FILE --item ITEM --path PATH --records JSON [--out FILE | --in-place]",
    "ice add FILE --item ITEM --path PATH [FIELDS] [--out FILE | --in-place]",
    "ice edit FILE --item ITEM --path PATH --index N [FIELDS] [--out FILE | --in-place]",
    "ice delete FILE --item ITEM --path PATH --index N [--out FILE | --in-place]",
    "ice sync FILE --item ITEM --path PATH [--out FILE | --in-place]",
    "ice dump FILE [--format yaml|json]",
    "ice scan DIR",
    "ice backup DIR",
    "",
    "FIELDS: --kind KIND --name NAME --key KEY --amount AMOUNT --use-name true|false"]

/-- The run of a command on the files of a tree, which are on disk. -/
partial def runOn (stamp : Text) (before : FileTree) (command : Command) : IO UInt32 := do
  let outcome := command.run stamp before
  match ← store before outcome.tree with
  | some refusal =>
    runOn stamp { before with unwritable := refusal :: before.unwritable } command
  | none =>
    IO.print (String.ofList outcome.output)
    IO.eprint (String.ofList outcome.errors)
    return UInt32.ofNat outcome.code

/-- **The run of a command on the files on disk.** -/
def run (command : Command) : IO UInt32 := do
  runOn (← stamp) (← treeFor command) command

end ItemConditions.Disk

/-- The program. -/
def main (args : List String) : IO UInt32 := do
  match Command.read (args.map String.toList) with
  | .ok command => Disk.run command
  | .error .help => Disk.synopsis.forM IO.println; return 0
  | .error .version => IO.println "ice 0.1.0"; return 0
  | .error .usage => Disk.synopsis.forM IO.eprintln; return 2
