import ItemConditions.Yaml.Token.Stream

/-!
# The events of a text

The nodes of a text, flattened: a scalar and an alias are one event, a collection is its start, the
events of its parts and its end. An event stands where its first token starts. A part that is left
out is an empty scalar.

## Main definitions

* `Yaml.Event`: an event
* `Yaml.Awaited`: what may come next
* `Yaml.Derivation`: the tokens that are left, what may come next, and what is open around it
* `Yaml.Derivation.step`: the next event
* `Yaml.Event.ofTokens`: the events of the tokens, and the fault that ended them if there was one
-/

namespace ItemConditions.Yaml

/-- **An event.** -/
inductive Event where
  | documentStart
  | documentEnd
  | streamEnd
  | alias (name : Text)
  | scalar (anchor? : Option Text) (tag? : Option Tag) (text : Text) (isPlain : Bool)
  | sequenceStart (anchor? : Option Text) (tag? : Option Tag)
  | sequenceEnd
  | mappingStart (anchor? : Option Text) (tag? : Option Tag)
  | mappingEnd
deriving DecidableEq, Repr

/-- **What may come next.** A collection is `fresh` as long as its opening token is not taken. -/
inductive Awaited where
  | firstDocument
  | nextDocument
  | documentContent
  | documentEnd
  | blockNode
  | blockEntry (fresh : Bool)
  /-- A dash of a sequence that stands as far left as the keys of the mapping around it. -/
  | indentlessEntry
  | blockKey (fresh : Bool)
  | blockValue
  | flowEntry (fresh : Bool)
  /-- The parts of a mapping of one entry, written without braces inside brackets. -/
  | pairKey
  | pairValue
  | pairEnd
  | flowKey (fresh : Bool)
  | flowValue
  | flowNoValue
  | nothing
deriving DecidableEq, Repr

/-- The tokens that are left, what may come next, and what is open around it. -/
structure Derivation where
  tokens : List Token
  /-- The fault behind the last token. -/
  fault? : Option Fault
  awaited : Awaited := .firstDocument
  pending : List Awaited := []
  /-- The handles of tags, with what they stand for. -/
  handles : List (Text × Tag) := []

namespace Derivation

/-- A step that ends without an event: by a fault, or because nothing is left. -/
abbrev Step (α : Type) := Except (Option Fault) α

/-- The next token. -/
def peek (d : Derivation) : Step Token :=
  match d.tokens with
  | t :: _ => .ok t
  | [] => .error d.fault?

/-- The next token is taken. -/
def skip (d : Derivation) : Derivation := { d with tokens := d.tokens.tail }

/-- A fault at a place. -/
def fail {α : Type} (problem : Problem) (mark : Mark) : Step α := .error (some (.here problem mark))

/-- Something else may come next. -/
def await (d : Derivation) (awaited : Awaited) : Derivation := { d with awaited := awaited }

/-- What is open around comes next. -/
def close (d : Derivation) : Derivation :=
  match d.pending with
  | awaited :: pending => { d with awaited := awaited, pending := pending }
  | [] => d.await .nothing

/-- Something comes after what is read now. -/
def postpone (d : Derivation) (awaited : Awaited) : Derivation :=
  { d with pending := awaited :: d.pending }

/-- A scalar that is left out. -/
def emptyScalar (d : Derivation) (mark : Mark) : Step ((Event × Mark) × Derivation) :=
  .ok ((.scalar none none [] true, mark), d)

/-! ## Directives -/

/-- The handles that every document has, where it does not redefine them. -/
def standardHandles : List (Text × Tag) :=
  [("!".toList, Utf8.encode "!".toList), ("!!".toList, Utf8.encode "tag:yaml.org,2002:".toList)]

/-- A version that can be read. -/
def isReadable (major minor : Nat) : Bool := major == 1 && (minor == 1 || minor == 2)

/-- The directives in front of a document. -/
def directives : Nat → Bool → Derivation → Step Derivation
  | 0, _, d => .ok d
  | fuel + 1, versioned, d => do
    let t ← d.peek
    match t.kind with
    | .version major minor =>
      if versioned then fail .versionDuplicate t.start
      else if !isReadable major minor then fail .versionUnsupported t.start
      else directives fuel true d.skip
    | .tagHandle handle start =>
      if d.handles.any fun (h, _) => h == handle then fail .tagHandleDuplicate t.start
      else directives fuel versioned { d.skip with handles := d.handles ++ [(handle, start)] }
    | _ => return { d with handles := d.handles ++ standardHandles }

/-! ## Nodes -/

/-- The anchor and the tag in front of a node, in either order; a tag is a handle, an ending and a
place. -/
def properties (d : Derivation) :
    Step (Option Text × Option (Text × Tag × Mark) × Derivation) := do
  let t ← d.peek
  match t.kind with
  | .anchor name =>
    let d := d.skip
    let t ← d.peek
    match t.kind with
    | .tag handle ending => return (some name, some (handle, ending, t.start), d.skip)
    | _ => return (some name, none, d)
  | .tag handle ending =>
    let d := d.skip
    let next ← d.peek
    match next.kind with
    | .anchor name => return (some name, some (handle, ending, t.start), d.skip)
    | _ => return (none, some (handle, ending, t.start), d)
  | _ => return (none, none, d)

/-- The whole tag: what its handle stands for, and its ending. -/
def resolveTag (handles : List (Text × Tag)) (handle : Text) (ending : Tag) (mark : Mark) :
    Step Tag :=
  if handle = [] then .ok ending
  else
    match handles.find? fun (h, _) => h == handle with
    | some (_, start) => .ok (start ++ ending)
    | none => fail .tagHandleUnknown mark

/-- A node. Inside brackets it is no block; a value or a key of a block mapping may be a
sequence that is not indented. Anchor and tag alone make an empty scalar. -/
def node (block indentless : Bool) (d : Derivation) : Step ((Event × Mark) × Derivation) := do
  let first ← d.peek
  match first.kind with
  | .alias name => return ((.alias name, first.start), d.skip.close)
  | _ =>
    let (anchor?, tag, d) ← d.properties
    let t ← d.peek
    let tag? ← match tag with
      | some (handle, ending, mark) => (resolveTag d.handles handle ending mark).map some
      | none => pure none
    let start (event : Event) (awaited : Awaited) : Step ((Event × Mark) × Derivation) :=
      .ok ((event, first.start), d.await awaited)
    let other : Step ((Event × Mark) × Derivation) :=
      if anchor?.isSome || tag?.isSome then
        .ok ((.scalar anchor? tag? [] true, first.start), d.close)
      else fail .nodeMissing t.start
    match t.kind with
    | .blockEntry =>
      if indentless then start (.sequenceStart anchor? tag?) .indentlessEntry else other
    | .scalar text style =>
      return ((.scalar anchor? tag? text (style = .plain), first.start), d.skip.close)
    | .flowSequenceStart => start (.sequenceStart anchor? tag?) (.flowEntry true)
    | .flowMappingStart => start (.mappingStart anchor? tag?) (.flowKey true)
    | .blockSequenceStart =>
      if block then start (.sequenceStart anchor? tag?) (.blockEntry true) else other
    | .blockMappingStart =>
      if block then start (.mappingStart anchor? tag?) (.blockKey true) else other
    | _ => other

/-! ## Documents -/

/-- The start of a document that has no line of dashes. -/
def impliedDocument (d : Derivation) (mark : Mark) : Step ((Event × Mark) × Derivation) :=
  .ok ((.documentStart, mark),
    { d with awaited := .blockNode, pending := [.documentEnd], handles := standardHandles })

/-- The start of a document, behind its directives and a line of dashes. -/
def markedDocument (d : Derivation) (mark : Mark) : Step ((Event × Mark) × Derivation) := do
  let d ← directives (d.tokens.length + 1) false d
  let t ← d.peek
  if t.kind = .documentStart then
    return ((.documentStart, mark),
      { d.skip with awaited := .documentContent, pending := [.documentEnd] })
  else fail .documentStartMissing t.start

/-- The start of a document, or the end of all of them. -/
def document (implied : Bool) (d : Derivation) : Step ((Event × Mark) × Derivation) := do
  let d := if implied then d else { d with tokens := d.tokens.dropWhile (·.kind = .documentEnd) }
  let t ← d.peek
  match t.kind with
  | .streamEnd => return ((.streamEnd, t.start), d.skip.await .nothing)
  | .version .. | .tagHandle .. | .documentStart => d.markedDocument t.start
  | _ => if implied then d.impliedDocument t.start else d.markedDocument t.start

/-! ## Steps -/

/-- A node behind a token that leads it, or an empty scalar behind that token if one of the tokens
that can follow the node comes already. -/
def nodeOrEmpty (follows : TokenKind → Bool) (block indentless : Bool) (next : Awaited)
    (mark : Mark) (d : Derivation) : Step ((Event × Mark) × Derivation) := do
  let t ← d.peek
  if follows t.kind then (d.await next).emptyScalar mark
  else (d.postpone next).node block indentless

/-- An entry of a block mapping has ended. -/
def endsBlockPart : TokenKind → Bool
  | .key | .value | .blockEnd => true
  | _ => false

/-- An entry of a block sequence has ended. -/
def endsBlockEntry : TokenKind → Bool
  | .blockEntry | .blockEnd => true
  | _ => false

/-- An entry of a sequence that is not indented has ended. -/
def endsIndentlessEntry : TokenKind → Bool
  | .blockEntry | .key | .value | .blockEnd => true
  | _ => false

/-- Inside a block sequence. -/
def blockEntry (d : Derivation) : Step ((Event × Mark) × Derivation) := do
  let t ← d.peek
  match t.kind with
  | .blockEntry => d.skip.nodeOrEmpty endsBlockEntry true false (.blockEntry false) t.stop
  | .blockEnd => return ((.sequenceEnd, t.start), d.skip.close)
  | _ => fail .dashMissing t.start

/-- Inside a sequence that is not indented: what is no dash ends it. -/
def indentlessEntry (d : Derivation) : Step ((Event × Mark) × Derivation) := do
  let t ← d.peek
  match t.kind with
  | .blockEntry => d.skip.nodeOrEmpty endsIndentlessEntry true false .indentlessEntry t.stop
  | _ => return ((.sequenceEnd, t.start), d.close)

/-- At a key of a block mapping. -/
def blockKey (d : Derivation) : Step ((Event × Mark) × Derivation) := do
  let t ← d.peek
  match t.kind with
  | .key => d.skip.nodeOrEmpty endsBlockPart true true .blockValue t.stop
  | .blockEnd => return ((.mappingEnd, t.start), d.skip.close)
  | _ => fail .blockKeyMissing t.start

/-- At a value of a block mapping. -/
def blockValue (d : Derivation) : Step ((Event × Mark) × Derivation) := do
  let t ← d.peek
  match t.kind with
  | .value => d.skip.nodeOrEmpty endsBlockPart true true (.blockKey false) t.stop
  | _ => (d.await (.blockKey false)).emptyScalar t.start

/-- The comma between the parts of a flow collection; none stands in front of the first part, and
none is needed before the end. -/
def comma (fresh : Bool) (ending : TokenKind) (problem : Problem) (d : Derivation) :
    Step Derivation := do
  let t ← d.peek
  if fresh || t.kind = ending then return d
  else if t.kind = .flowEntry then return d.skip
  else fail problem t.start

/-- Inside brackets. A key starts a mapping of one entry. -/
def flowEntry (fresh : Bool) (d : Derivation) : Step ((Event × Mark) × Derivation) := do
  let d ← d.comma fresh .flowSequenceEnd .flowSequenceEnd
  let t ← d.peek
  match t.kind with
  | .flowSequenceEnd => return ((.sequenceEnd, t.start), d.skip.close)
  | .key => return ((.mappingStart none none, t.start), d.skip.await .pairKey)
  | _ => (d.postpone (.flowEntry false)).node false false

/-- The key of a mapping without braces. If it is left out, the token behind it is passed over. -/
def pairKey (d : Derivation) : Step ((Event × Mark) × Derivation) := do
  let t ← d.peek
  match t.kind with
  | .value | .flowEntry | .flowSequenceEnd => (d.skip.await .pairValue).emptyScalar t.stop
  | _ => (d.postpone .pairValue).node false false

/-- The value of a mapping without braces. -/
def pairValue (d : Derivation) : Step ((Event × Mark) × Derivation) := do
  let t ← d.peek
  match t.kind with
  | .value =>
    let next ← d.skip.peek
    match next.kind with
    | .flowEntry | .flowSequenceEnd => (d.skip.await .pairEnd).emptyScalar next.start
    | _ => (d.skip.postpone .pairEnd).node false false
  | _ => (d.await .pairEnd).emptyScalar t.start

/-- Inside braces, at a key. -/
def flowKey (fresh : Bool) (d : Derivation) : Step ((Event × Mark) × Derivation) := do
  let d ← d.comma fresh .flowMappingEnd .flowMappingEnd
  let t ← d.peek
  match t.kind with
  | .flowMappingEnd => return ((.mappingEnd, t.start), d.skip.close)
  | .key =>
    let next ← d.skip.peek
    match next.kind with
    | .value | .flowEntry | .flowMappingEnd => (d.skip.await .flowValue).emptyScalar next.start
    | _ => (d.skip.postpone .flowValue).node false false
  | _ => (d.postpone .flowNoValue).node false false

/-- Inside braces, at a value. -/
def flowValue (d : Derivation) : Step ((Event × Mark) × Derivation) := do
  let t ← d.peek
  match t.kind with
  | .value =>
    let next ← d.skip.peek
    match next.kind with
    | .flowEntry | .flowMappingEnd => (d.skip.await (.flowKey false)).emptyScalar next.start
    | _ => (d.skip.postpone (.flowKey false)).node false false
  | _ => (d.await (.flowKey false)).emptyScalar t.start

/-- **The next event**, with its place. -/
def step (d : Derivation) : Step ((Event × Mark) × Derivation) :=
  match d.awaited with
  | .firstDocument => d.document true
  | .nextDocument => d.document false
  | .documentContent => do
    let t ← d.peek
    match t.kind with
    | .version .. | .tagHandle .. | .documentStart | .documentEnd | .streamEnd =>
      d.close.emptyScalar t.start
    | _ => d.node true false
  | .documentEnd => do
    let t ← d.peek
    let d := if t.kind = .documentEnd then d.skip else d
    return ((.documentEnd, t.start), { d with awaited := .nextDocument, handles := [] })
  | .blockNode => d.node true false
  | .blockEntry fresh => (if fresh then d.skip else d).blockEntry
  | .indentlessEntry => d.indentlessEntry
  | .blockKey fresh => (if fresh then d.skip else d).blockKey
  | .blockValue => d.blockValue
  | .flowEntry fresh => (if fresh then d.skip else d).flowEntry fresh
  | .pairKey => d.pairKey
  | .pairValue => d.pairValue
  | .pairEnd => do
    let t ← d.peek
    return ((.mappingEnd, t.start), d.await (.flowEntry false))
  | .flowKey fresh => (if fresh then d.skip else d).flowKey fresh
  | .flowValue => d.flowValue
  | .flowNoValue => do
    let t ← d.peek
    (d.await (.flowKey false)).emptyScalar t.start
  | .nothing => .error none

/-- The events from here on, and the fault that ended them if there was one. -/
def run : Nat → Derivation → List (Event × Mark) × Option Fault
  | 0, _ => ([], none)
  | fuel + 1, d =>
    match d.step with
    | .error fault? => ([], fault?)
    | .ok (event, d) =>
      let (events, fault?) := run fuel d
      (event :: events, fault?)

end Derivation

/-- The events of the tokens, and the fault that ended them if there was one. No token leads to
more than a few events. -/
def Event.ofTokens (tokens : List Token) (fault? : Option Fault) :
    List (Event × Mark) × Option Fault :=
  Derivation.run (8 * tokens.length + 16) ⟨tokens.drop 1, fault?, .firstDocument, [], []⟩

end ItemConditions.Yaml
