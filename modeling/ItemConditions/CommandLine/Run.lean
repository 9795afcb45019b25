import ItemConditions.CommandLine.Arguments
import ItemConditions.Document.File
import ItemConditions.FileTree.Backup
import ItemConditions.Record.Printer
import ItemConditions.Record.Reader
import ItemConditions.Session

/-!
# Running a command

A run works on a tree of files. It prints, fails with a code, or leaves a changed tree behind. A run
that fails behind its backup leaves the backup.

## Main definitions

* `CommandLine.Outcome`: what a run does
* `CommandLine.deliver`: an edited document on its way out
* `CommandLine.Command.run`: the run of a command
-/

namespace ItemConditions.CommandLine

/-- **What a run does**: its exit code, what it prints on either channel, and the tree it leaves. -/
structure Outcome where
  code : Nat := 0
  output : Text := []
  errors : Text := []
  tree : FileTree
deriving DecidableEq, Repr

/-- A line of a text. -/
def line (s : String) : Text := s.toList ++ ['\n']

/-- Texts with tabs between them, on a line. -/
def row (cells : List Text) : Text := List.intercalate ['\t'] cells ++ ['\n']

/-- A run that fails. What it has printed as notes before stays. -/
def Outcome.failed (tree : FileTree) (code : Nat) (message : String) (notes : Text) : Outcome :=
  { code := code, errors := notes ++ line ("error: " ++ message), tree := tree }

/-- A run that prints and leaves the tree alone. -/
def Outcome.printed (tree : FileTree) (output : Text) : Outcome :=
  { output := output, tree := tree }

/-! ## Documents in and out -/

/-- A run on the document of a file. -/
def withDocument (tree : FileTree) (file : Text) (k : Document → Outcome) : Outcome :=
  match Document.ofFile tree file with
  | .ok doc => k doc
  | .error e => .failed tree 2 (String.ofList file ++ ": " ++ e.message) []

/-- A run on a session at a path of an item of a file. -/
def withSession (tree : FileTree) (target : Target) (k : Document → Session → Outcome) : Outcome :=
  withDocument tree target.file fun doc =>
    match Session.start doc target.item target.path with
    | .ok session => k doc session
    | .error e => .failed tree 3 e.message []

/-- **An edited document on its way out**: it is printed, written to another file, or written over
its own file after that has been copied. -/
def deliver (stamp : Text) (tree : FileTree) (file : Text) (destination : Destination)
    (doc : Document) (notes : Text) : Outcome :=
  match destination with
  | .printed => { output := doc.toYaml, errors := notes, tree := tree }
  | .file path =>
    match doc.store tree path with
    | .ok tree => { errors := notes, tree := tree }
    | .error e => .failed tree 5 ("error writing: " ++ e.message) notes
  | .inPlace =>
    match tree.copyBeside file stamp with
    | .error e => .failed tree 5 ("backup failed: " ++ e.message) notes
    | .ok (_, tree) =>
      match doc.store tree file with
      | .ok tree => { errors := notes, tree := tree }
      | .error e => .failed tree 5 ("error writing: " ++ e.message) notes

/-- A session is committed, and the document goes out. -/
def commitSession (stamp : Text) (tree : FileTree) (target : Target) (destination : Destination)
    (doc : Document) (session : Session) : Outcome :=
  match (session.commit doc).answer with
  | .error e => .failed tree 4 e.message []
  | .ok (outcome, _, doc) =>
    let notes := if outcome = .unchanged then line "no changes" else []
    deliver stamp tree target.file destination doc notes

/-! ## Listings -/

/-- The items of a document with the number of their paths. -/
def itemRows (doc : Document) : Text :=
  doc.entries.flatMap fun (item, tree) =>
    row [item, Text.ofNat (Discovery.paths tree).length]

/-- The paths of an item with their labels. -/
def pathRows (paths : List ItemPath) : Text :=
  paths.flatMap fun p => row [p.text, p.kind.label.toList]

/-- A comparator behind an amount; the usual one is not shown. -/
def comparatorNote (c : Comparator) : Text :=
  if c = .ge then [] else " (".toList ++ c.sign.toList ++ [')']

/-- A record with its index. -/
def recordRow (index : Nat) (r : Record) : Text :=
  row [Text.ofNat index, r.kind.name.toList, r.name, r.key,
    'x' :: r.amount.toPlain ++ comparatorNote r.comparator, r.rawText]

/-- The records of a session, below its path. -/
def recordRows (s : Session) : Text :=
  line ("# " ++ String.ofList s.path.text ++ " (" ++ s.kind.label ++ ")")
    ++ (s.records.mapIdx recordRow).flatten

/-- How many records at a path are structured and how many are kept, or why there are none. -/
def summary (doc : Document) (item : Text) (path : ItemPath) : String :=
  match doc.load item path with
  | .ok rs =>
    let structured := rs.countP Record.isStructured
    "parsed=" ++ toString structured ++ " raw=" ++ toString (rs.length - structured)
  | .error (.unsupported _ found _) => "unsupported " ++ found
  | .error e => e.message

/-- The paths of all items of a file. -/
def fileRows (tree : FileTree) (file : Text) : Text :=
  match Document.ofFile tree file with
  | .error e => row [file, "$error".toList, e.message.toList]
  | .ok doc =>
    doc.entries.flatMap fun (item, v) =>
      (Discovery.paths v).flatMap fun p =>
        row [file, item, p.text, p.kind.label.toList, (summary doc item p).toList]

/-- What is noted of a spread. -/
def reportNotes (report : SpreadReport) : Text :=
  line ("updated " ++ toString report.updated.length ++ " path(s)")
    ++ report.skipped.flatMap fun p => line ("skipped: " ++ String.ofList p.text)

/-! ## Runs -/

/-- **The run of a command.** Backups have the stamp in their names. -/
def Command.run (stamp : Text) (tree : FileTree) : Command → Outcome
  | .items file => withDocument tree file fun doc => .printed tree (itemRows doc)
  | .paths file item => withDocument tree file fun doc =>
    match doc.item? item with
    | none => .failed tree 3 ("unknown item '" ++ String.ofList item ++ "'") []
    | some v =>
      let paths := Discovery.paths v
      { output := pathRows paths, tree := tree
        errors := if paths.isEmpty then line "no editable paths" else [] }
  | .records target asJson => withSession tree target fun _ session =>
    .printed tree
      (if asJson then Json.pretty (Record.listToValue session.records) ++ ['\n']
      else recordRows session)
  | .commit target given destination => withDocument tree target.file fun doc =>
    match Record.readList given with
    | .error e => .failed tree 3 ("invalid --records JSON: " ++ e.message) []
    | .ok rs =>
      match (doc.commit target.item target.path rs).answer with
      | .error e => .failed tree 4 e.message []
      | .ok (_, doc) => deliver stamp tree target.file destination doc []
  | .add target changes destination => withSession tree target fun doc session =>
    let (index, session) := session.add
    match session.edit index changes.apply with
    | .error e => .failed tree 4 e.message []
    | .ok session => commitSession stamp tree target destination doc session
  | .edit target index changes destination => withSession tree target fun doc session =>
    match session.edit index changes.apply with
    | .error e => .failed tree 4 e.message []
    | .ok session => commitSession stamp tree target destination doc session
  | .delete target index destination => withSession tree target fun doc session =>
    match session.delete index with
    | .error e => .failed tree 4 e.message []
    | .ok (_, session) => commitSession stamp tree target destination doc session
  | .spread target destination => withSession tree target fun doc session =>
    match (session.spread doc).answer with
    | .error e => .failed tree 4 e.message []
    | .ok (report, doc) =>
      deliver stamp tree target.file destination doc (reportNotes report)
  | .dump file format => withDocument tree file fun doc => .printed tree (doc.write format)
  | .scan directory =>
    if tree.isDirectory directory then
      .printed tree ((tree.findItems directory).flatMap (fileRows tree))
    else .failed tree 2 ("not found: " ++ String.ofList directory) []
  | .backup directory =>
    match tree.archiveBeside directory stamp with
    | .ok (path, tree) => { output := path ++ ['\n'], tree := tree }
    | .error e => .failed (e.left tree) 5 e.message []

end ItemConditions.CommandLine
