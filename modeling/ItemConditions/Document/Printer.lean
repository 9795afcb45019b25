import ItemConditions.Document.Reader
import ItemConditions.Json.Printer
import ItemConditions.Yaml.Printer

/-!
# Writing documents

## Main definitions

* `Document.Format`: YAML or JSON
* `Document.write`: the text of a document
* `Document.isKept`: a text is read back as an equal document
-/

namespace ItemConditions.Document

/-- A way to write a document. -/
inductive Format where
  | yaml
  | json
deriving DecidableEq, Repr

/-- The document in YAML, which is the usual way. -/
def toYaml (doc : Document) : Text := Yaml.write doc.toValue

/-- **The text of a document.** -/
def write (doc : Document) : Format → Text
  | .yaml => doc.toYaml
  | .json => Json.pretty doc.toValue

/-- A text is read back as a document equal to this one. -/
def isKept (doc : Document) (t : Text) : Bool :=
  match ofYaml t with
  | .ok again => again.same doc
  | .error _ => false

end ItemConditions.Document
