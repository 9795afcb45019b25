import ItemConditions.Document
import ItemConditions.Text.Blank
import ItemConditions.Yaml.Reader

/-!
# Reading documents

A document is read from YAML text. A blank text is the empty document.

## Main definitions

* `Document.Fault`: why a text is no document
* `Document.ofYaml`: the document of a text
-/

namespace ItemConditions.Document

/-- **Why a text is no document.** -/
inductive Fault where
  | syntactic (fault : Yaml.Fault)
  /-- The text holds a value of this type, not a mapping. -/
  | notMapping (typeName : String)
deriving DecidableEq, Repr

/-- The wording of a fault; the line is told once more at the end. -/
def Fault.message : Fault → String
  | .syntactic fault =>
    fault.message ++ (match fault.line? with
      | some line => " (line " ++ toString line ++ ")"
      | none => "")
  | .notMapping typeName => "top-level value must be a mapping of item keys, found " ++ typeName

/-- The document that a value holds. -/
def read (v : Value) : Except Fault Document := (ofValue v).mapError .notMapping

/-- **The document of a text.** -/
def ofYaml (t : Text) : Except Fault Document :=
  if Text.trim t = [] then .ok empty
  else
    match Yaml.read t with
    | .ok v => read v
    | .error fault => .error (.syntactic fault)

end ItemConditions.Document
