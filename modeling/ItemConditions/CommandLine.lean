import ItemConditions.Document.Printer
import ItemConditions.Record.Edit

/-!
# Commands of the command line

What a run of the program is asked to do.

## Main definitions

* `CommandLine.Target`: a path of an item of a file
* `CommandLine.Destination`: where an edited document goes
* `CommandLine.Command`: the commands
-/

namespace ItemConditions.CommandLine

/-- **A path of an item of a file.** -/
structure Target where
  file : Text
  item : Text
  path : ItemPath
deriving DecidableEq, Repr

/-- **Where an edited document goes.** -/
inductive Destination where
  | printed
  | file (path : Text)
  /-- Back to where it came from, with a copy of the file before. -/
  | inPlace
deriving DecidableEq, Repr

/-- **What a run is asked to do.** -/
inductive Command where
  /-- List the items of a file. -/
  | items (file : Text)
  /-- List the paths of an item that hold conditions or commands. -/
  | paths (file item : Text)
  /-- List the records at a path. -/
  | records (target : Target) (asJson : Bool)
  /-- Write records given in JSON at a path. -/
  | commit (target : Target) (records : Text) (destination : Destination)
  /-- Add a record. -/
  | add (target : Target) (changes : Changes) (destination : Destination)
  /-- Change the record at an index. -/
  | edit (target : Target) (index : Nat) (changes : Changes) (destination : Destination)
  /-- Take out the record at an index. -/
  | delete (target : Target) (index : Nat) (destination : Destination)
  /-- Copy the structured records at a path to the other paths of its kind. -/
  | spread (target : Target) (destination : Destination)
  /-- Write a document anew. -/
  | dump (file : Text) (format : Document.Format)
  /-- List the paths of all items of all files of a directory. -/
  | scan (directory : Text)
  /-- Put the item files of a directory into an archive. -/
  | backup (directory : Text)
deriving DecidableEq, Repr

/-- The path that a destination names. -/
def Destination.paths : Destination → List Text
  | .file path => [path]
  | _ => []

namespace Command

/-- The files that a run may read or write, apart from its backups. -/
def files : Command → List Text
  | .items file | .paths file _ | .dump file _ => [file]
  | .records target _ => [target.file]
  | .commit target _ destination | .add target _ destination | .edit target _ _ destination
  | .delete target _ destination | .spread target destination => target.file :: destination.paths
  | .scan _ | .backup _ => []

/-- The directories of which a run may read all files. -/
def directories : Command → List Text
  | .scan directory | .backup directory => [directory]
  | _ => []

end Command

end ItemConditions.CommandLine
