import ItemConditions.Document.Printer
import ItemConditions.FileTree

/-!
# Documents in files

## Main definitions

* `Document.FileFault`: why a file holds no document
* `Document.ofFile`, `Document.store`: a document in a file of a tree
-/

namespace ItemConditions.Document

/-- **Why a file holds no document.** -/
inductive FileFault where
  | file (e : FileError)
  | text (fault : Fault)
deriving DecidableEq, Repr

/-- The wording of the fault. -/
def FileFault.message : FileFault → String
  | .file e => e.message
  | .text fault => fault.message

/-- **The document in the file** that a path leads to. -/
def ofFile (tree : FileTree) (path : Text) : Except FileFault Document :=
  match tree.read path with
  | .error e => .error (.file e)
  | .ok t => (ofYaml t).mapError .text

/-- The contents of a file that holds the document. -/
def toContents (doc : Document) : FileTree.Contents := .bytes (Utf8.encode doc.toYaml)

/-- The tree with the document in the file that a path leads to. -/
def store (doc : Document) (tree : FileTree) (path : Text) : Except FileError FileTree :=
  tree.write path doc.toContents

end ItemConditions.Document
