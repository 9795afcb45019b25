import ItemConditions.Binary64.Numeral
import ItemConditions.Json.Reader
import ItemConditions.Record
import ItemConditions.Text.Quoted
import ItemConditions.Value

/-!
# Reading records

A record is read from a mapping. The fields that all records have are read as they come; the others
are gathered and read by the kind once the mapping is complete. Of two faults the one that is met
first is told.

The text of a list of records is read piece by piece in the same order, so that a fault of one
record is told before the text behind it is looked at.

## Main definitions

* `Record.Fault`: why something is no record
* `Record.ofFields`: the record of a list of fields
* `Record.ofValue`: the record of a value
* `Record.readList`: the records of a JSON text
-/

namespace ItemConditions

/-- A value as a message names it. -/
def Value.description : Value → String
  | .null => "null"
  | .bool true => "boolean `true`"
  | .bool false => "boolean `false`"
  | .number (.whole i) => "integer `" ++ toString i ++ "`"
  | .number (.real x) => "floating point `" ++ String.ofList ((x.toNumeral? true).getD []) ++ "`"
  | .string s => "string " ++ String.ofList (Text.quoted s)
  | .sequence _ => "sequence"
  | .mapping _ => "map"

namespace Record

/-- **Why something is no record.** -/
inductive Fault where
  /-- The text is no JSON. -/
  | malformed
  /-- A value of another type. -/
  | wrongType (found : Value) (expected : String)
  /-- A value of the right type that is none of those that are known. -/
  | wrongValue (found : Value) (expected : String)
  | missing (field : String)
  | duplicate (field : String)
  /-- A word that is none of those that are known. -/
  | unknownWord (word : Text) (known : List String)
deriving Repr

/-- The wording of a fault; malformed text has none of its own. -/
def Fault.message : Fault → String
  | .malformed => "malformed text"
  | .wrongType found expected => "invalid type: " ++ found.description ++ ", expected " ++ expected
  | .wrongValue found expected =>
    "invalid value: " ++ found.description ++ ", expected " ++ expected
  | .missing field => "missing field `" ++ field ++ "`"
  | .duplicate field => "duplicate field `" ++ field ++ "`"
  | .unknownWord word known =>
    "unknown variant `" ++ String.ofList word ++ "`, expected one of "
      ++ ", ".intercalate (known.map fun w => "`" ++ w ++ "`")

/-! ## Single fields -/

/-- A text. -/
def text : Value → Except Fault Text
  | .string s => .ok s
  | v => .error (.wrongType v "a string")

/-- A truth value. -/
def truth : Value → Except Fault Bool
  | .bool b => .ok b
  | v => .error (.wrongType v "a boolean")

/-- An amount. -/
def amountOf : Value → Except Fault Binary64
  | .number n => .ok n.toBinary64
  | v => .error (.wrongType v "f64")

/-- A kind, by its word or by its index. -/
def kindOf : Value → Except Fault Kind
  | .string s =>
    match Kind.ofName? s with
    | some k => .ok k
    | none => .error (.unknownWord s (Kind.all.map Kind.name))
  | .number (.whole (.ofNat i)) =>
    match Kind.all[i]? with
    | some k => .ok k
    | none => .error (.wrongValue (.number (.whole i)) "variant index 0 <= i < 7")
  | v => .error (.wrongType v "variant identifier")

/-- A comparator of a sign. -/
def comparatorOfSign (t : Text) : Except Fault Comparator :=
  match Comparator.read? t with
  | some c => .ok c
  | none => .error (.unknownWord t (Comparator.all.map Comparator.sign))

/-- A comparator, by its sign or as the only key of a mapping to null. -/
def comparatorOf : Value → Except Fault Comparator
  | .string s => comparatorOfSign s
  | .mapping [(sign, v)] => do
    let c ← comparatorOfSign sign
    match v with
    | .null => return c
    | v => throw (.wrongType v "unit")
  | .mapping es => .error (.wrongValue (.mapping es) "map with a single key")
  | v => .error (.wrongType v "string or map")

/-! ## The fields of a condition -/

/-- The fields of a condition so far. -/
structure Form where
  name : Option Text := none
  key : Option Text := none
  amount : Option Binary64 := none
  useName : Option Bool := none
  text : Option Text := none

/-- The fields that a kind has. -/
def formFields : Kind → List String
  | .money | .level => ["amount"]
  | .playerMeta | .unknown => ["key", "amount"]
  | .mythicMobs | .neigeItems => ["name", "key", "amount", "use_name"]
  | .raw => ["text"]

/-- A field that is read only once. -/
def once {α : Type} (field : String) (present : Option α) (read : Except Fault α) :
    Except Fault (Option α) :=
  if present.isSome then .error (.duplicate field) else read.map some

/-- One more field of a condition; fields that the kind lacks are passed over. -/
def Form.put (kind : Kind) (form : Form) (field : Text × Value) : Except Fault Form :=
  let (name, v) := field
  if (formFields kind).all fun f => f.toList ≠ name then .ok form
  else if name = "name".toList then
    (once "name" form.name (Record.text v)).map fun x => { form with name := x }
  else if name = "key".toList then
    (once "key" form.key (Record.text v)).map fun x => { form with key := x }
  else if name = "amount".toList then
    (once "amount" form.amount (amountOf v)).map fun x => { form with amount := x }
  else if name = "use_name".toList then
    (once "use_name" form.useName (truth v)).map fun x => { form with useName := x }
  else (once "text" form.text (Record.text v)).map fun x => { form with text := x }

/-- A field that has to be there. -/
def required {α : Type} (field : String) : Option α → Except Fault α
  | some x => .ok x
  | none => .error (.missing field)

/-- The condition of a complete form: amounts are zero, names empty and items matched by name unless
something else is said. -/
def Form.condition (kind : Kind) (form : Form) : Except Fault Condition :=
  let amount := form.amount.getD .zero
  let item (key : Text) : ItemMatch := ⟨form.name.getD [], key, amount, form.useName.getD true⟩
  match kind with
  | .money => .ok (.money amount)
  | .level => .ok (.level amount)
  | .playerMeta => (required "key" form.key).map fun key => .playerMeta key amount
  | .unknown => (required "key" form.key).map fun key => .unknown key amount
  | .mythicMobs => (required "key" form.key).map fun key => .mythicMobs (item key)
  | .neigeItems => (required "key" form.key).map fun key => .neigeItems (item key)
  | .raw => (required "text" form.text).map .raw

/-- The kind among the fields, and the other fields. -/
def splitKind : List (Text × Value) → Option Kind → Except Fault (Kind × List (Text × Value))
  | [], some kind => .ok (kind, [])
  | [], none => .error (.missing "kind")
  | (name, v) :: fields, kind =>
    if name = "kind".toList then
      if kind.isSome then .error (.duplicate "kind")
      else
        match kindOf v with
        | .ok k => splitKind fields (some k)
        | .error e => .error e
    else (splitKind fields kind).map fun (k, others) => (k, (name, v) :: others)

/-- The condition of the gathered fields. -/
def conditionOf (fields : List (Text × Value)) : Except Fault Condition := do
  let (kind, others) ← splitKind fields none
  let form ← others.foldlM (Form.put kind) {}
  form.condition kind

/-! ## Whole records -/

/-- A record on its way: the fields that all records have, and the gathered others. -/
structure Draft where
  rawText : Option Text := none
  isAction : Option Bool := none
  comparator : Option Comparator := none
  /-- The others, the last one first. -/
  others : List (Text × Value) := []

/-- Nothing stands yet in a field that all records have. -/
def Draft.vacant (draft : Draft) (name : Text) : Except Fault Unit :=
  if name = "raw_text".toList ∧ draft.rawText.isSome then .error (.duplicate "raw_text")
  else if name = "is_action".toList ∧ draft.isAction.isSome then .error (.duplicate "is_action")
  else if name = "comparator".toList ∧ draft.comparator.isSome then
    .error (.duplicate "comparator")
  else .ok ()

/-- One more field of a record. -/
def Draft.put (draft : Draft) (name : Text) (v : Value) : Except Fault Draft :=
  if name = "raw_text".toList then (text v).map fun t => { draft with rawText := some t }
  else if name = "is_action".toList then (truth v).map fun b => { draft with isAction := some b }
  else if name = "comparator".toList then
    (comparatorOf v).map fun c => { draft with comparator := some c }
  else .ok { draft with others := (name, v) :: draft.others }

/-- The record of a complete draft. -/
def Draft.record (draft : Draft) : Except Fault Record :=
  (conditionOf draft.others.reverse).map fun c =>
    { condition := c
      rawText := draft.rawText.getD []
      isAction := draft.isAction.getD false
      comparator := draft.comparator.getD .ge }

/-- **The record of a list of fields.** -/
def ofFields (fields : List (Text × Value)) : Except Fault Record := do
  let draft ← fields.foldlM
    (fun draft (name, v) => do
      draft.vacant name
      draft.put name v)
    ({} : Draft)
  draft.record

/-- **The record of a value.** -/
def ofValue : Value → Except Fault Record
  | .mapping fields => ofFields fields
  | v => .error (.wrongType v "struct ConditionRecord")

/-! ## The text of a list -/

/-- A step of JSON reading. -/
def ofJson {α : Type} : Except Json.Fault α → Except Fault α
  | .ok a => .ok a
  | .error _ => .error .malformed

/-- Containers inside a record of a list nest to this depth. -/
def depthLimit : Nat := Json.depthLimit - 2

/-- The fault of a value of another type than the one expected. A container is told from its
first character, any other value is read first. -/
def mismatch (expected : String) (t : Text) : Fault :=
  match Json.skipSpace t with
  | '[' :: _ => .wrongType (.sequence []) expected
  | '\x7b' :: _ => .wrongType (.mapping []) expected
  | t =>
    match Json.valueWithin 0 t with
    | .ok (v, _) => .wrongType v expected
    | .error _ => .malformed

/-- The value of a field that is no container; a container is a mismatch. -/
def scalar (expected : String) (t : Text) : Except Fault (Value × Text) :=
  match Json.skipSpace t with
  | '[' :: _ | '\x7b' :: _ => .error (mismatch expected t)
  | t => ofJson (Json.valueWithin 0 t)

/-- The comparator that starts a text: a sign, or the only key of a mapping to null. -/
def readComparator (t : Text) : Except Fault (Comparator × Text) :=
  match Json.skipSpace t with
  | '"' :: r => do
    let (sign, r) ← ofJson (Json.string r)
    let c ← comparatorOfSign sign
    return (c, r)
  | '\x7b' :: r => do
    let (sign, r) ← scalar "variant identifier" r
    let c ←
      match sign with
      | .string s => comparatorOfSign s
      | v => throw (.wrongType v "variant identifier")
    let r ← ofJson (Json.colon r)
    let (v, r) ← scalar "unit" r
    match v, Json.skipSpace r with
    | .null, '\x7d' :: r => return (c, r)
    | .null, _ => throw .malformed
    | v, _ => throw (.wrongType v "unit")
  | _ => .error .malformed

/-- The value of a field that starts a text, put into a draft. -/
def readField (draft : Draft) (name : Text) (t : Text) : Except Fault (Draft × Text) := do
  draft.vacant name
  let t ← ofJson (Json.colon t)
  if name = "comparator".toList then
    let (c, t) ← readComparator t
    return ({ draft with comparator := some c }, t)
  else
    let (v, t) ←
      if name = "raw_text".toList then scalar "a string" t
      else if name = "is_action".toList then scalar "a boolean" t
      else ofJson (Json.valueWithin depthLimit t)
    let draft ← draft.put name v
    return (draft, t)

/-- The fields behind the first ones, up to the closing brace. -/
def readFields : Nat → Draft → Text → Except Fault (Draft × Text)
  | 0, _, _ => .error .malformed
  | fuel + 1, draft, t => do
    let (name, t) ← ofJson (Json.key t)
    let (draft, t) ← readField draft name t
    match Json.skipSpace t with
    | ',' :: t => readFields fuel draft t
    | '\x7d' :: t => return (draft, t)
    | _ => throw .malformed

/-- A record that starts a text. -/
def readRecord (t : Text) : Except Fault (Record × Text) :=
  match Json.skipSpace t with
  | '\x7b' :: r => do
    let (draft, r) ←
      match Json.skipSpace r with
      | '\x7d' :: r => pure ({}, r)
      | r => readFields (r.length + 1) {} r
    let record ← draft.record
    return (record, r)
  | _ => .error (mismatch "struct ConditionRecord" t)

/-- The records behind the first ones, up to the closing bracket. -/
def readRecords : Nat → Text → Except Fault (List Record × Text)
  | 0, _ => .error .malformed
  | fuel + 1, t => do
    let (record, t) ← readRecord t
    match Json.skipSpace t with
    | ',' :: t => do
      let (records, t) ← readRecords fuel t
      return (record :: records, t)
    | ']' :: t => return ([record], t)
    | _ => throw .malformed

/-- The records of a JSON text. -/
def readList (t : Text) : Except Fault (List Record) :=
  match Json.skipSpace t with
  | '[' :: r => do
    let (records, r) ←
      match Json.skipSpace r with
      | ']' :: r => pure ([], r)
      | r => readRecords (r.length + 1) r
    ofJson (Json.finished r)
    return records
  | _ => .error (mismatch "a sequence" t)

end Record

end ItemConditions
