import ItemConditions.Yaml.Event

/-!
# The body of a document

The events between the start and the end of a document, with every alias led to the node that it
stands for. A text has one document: what follows it is a fault, and a text without any has the
empty one.

## Main definitions

* `Yaml.Part`: an event inside a document
* `Yaml.Body`: the events of a document, and what ends it
* `Yaml.Body.ofText`: the body of the first document
-/

namespace ItemConditions.Yaml

/-- **An event inside a document.** -/
inductive Part where
  /-- The node whose anchor has this number. -/
  | alias (number : Nat)
  | scalar (tag? : Option Tag) (text : Text) (isPlain : Bool)
  | sequenceStart (tag? : Option Tag)
  | sequenceEnd
  | mappingStart (tag? : Option Tag)
  | mappingEnd
  /-- A document of which there is nothing. -/
  | absent
deriving DecidableEq, Repr

/-- **The events of a document**, and what ends it. -/
structure Body where
  parts : Array (Part × Mark)
  /-- The numbers of the anchors, with the positions of their nodes. -/
  anchors : List (Nat × Nat)
  /-- The fault that ended the document early. -/
  fault? : Option Fault
  /-- Something stands behind the document. -/
  continues : Bool

namespace Body

/-- The body of no document. -/
def absent : Body := ⟨#[(.absent, {})], [], none, false⟩

/-- The position of the node whose anchor has a number: of several the last one. -/
def position? (b : Body) (number : Nat) : Option Nat :=
  (b.anchors.reverse.find? fun (n, _) => n == number).map Prod.snd

/-- A body on its way: the parts in reverse, and the number of each name. -/
structure Draft where
  parts : List (Part × Mark) := []
  count : Nat := 0
  names : List (Text × Nat) := []
  anchors : List (Nat × Nat) := []

namespace Draft

/-- One more part. -/
def push (d : Draft) (part : Part) (mark : Mark) : Draft :=
  { d with parts := (part, mark) :: d.parts, count := d.count + 1 }

/-- An anchor in front of the next part. Its number is the number of names known so far. -/
def define (d : Draft) (anchor? : Option Text) : Draft :=
  match anchor? with
  | none => d
  | some name =>
    let number := d.names.length
    { d with
      names := (name, number) :: d.names.filter fun (n, _) => n ≠ name
      anchors := d.anchors ++ [(number, d.count)] }

/-- The finished body. -/
def finish (d : Draft) (fault? : Option Fault) (continues : Bool) : Body :=
  ⟨d.parts.reverse.toArray, d.anchors, fault?, continues⟩

end Draft

/-- What follows the end of a document lets it continue: anything but the end of the text. -/
def isFollowed (events : List (Event × Mark)) (fault? : Option Fault) : Bool :=
  match events with
  | (.streamEnd, _) :: _ => false
  | [] => fault?.isSome
  | _ => true

/-- The body of the first document. An alias of a name that no anchor has ends it early. -/
def collect (fault? : Option Fault) : Draft → List (Event × Mark) → Body
  | d, [] => d.finish fault? false
  | d, (event, mark) :: events =>
    match event with
    | .documentStart => collect fault? d events
    | .documentEnd => d.finish none (isFollowed events fault?)
    | .streamEnd => if d.count = 0 then absent else d.finish none false
    | .alias name =>
      match d.names.find? fun (n, _) => n == name with
      | some (_, number) => collect fault? (d.push (.alias number) mark) events
      | none => d.finish (some (.here .anchorUnknown mark)) false
    | .scalar anchor? tag? text isPlain =>
      collect fault? ((d.define anchor?).push (.scalar tag? text isPlain) mark) events
    | .sequenceStart anchor? tag? =>
      collect fault? ((d.define anchor?).push (.sequenceStart tag?) mark) events
    | .sequenceEnd => collect fault? (d.push .sequenceEnd mark) events
    | .mappingStart anchor? tag? =>
      collect fault? ((d.define anchor?).push (.mappingStart tag?) mark) events
    | .mappingEnd => collect fault? (d.push .mappingEnd mark) events

/-- The body of the first document of a text. -/
def ofText (t : Text) : Body :=
  let (tokens, fault?) := Token.ofText t
  let (events, fault?) := Event.ofTokens tokens fault?
  collect fault? {} events

end Body

end ItemConditions.Yaml
