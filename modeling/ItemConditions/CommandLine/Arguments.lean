import ItemConditions.CommandLine

/-!
# Reading arguments

The arguments of a run are the name of a command, one operand, and options with two dashes in front
of their names. An option's value is the next argument or follows an equals sign. Nothing comes
twice. Behind two dashes alone there are no more options.

## Main definitions

* `CommandLine.OptionShape`, `CommandLine.options`: the options of each command
* `CommandLine.Arguments.ofList`: arguments by name
* `CommandLine.Command.read`: the command that arguments ask for
-/

namespace ItemConditions.CommandLine

/-- Why there is no command to run. -/
inductive Refusal where
  /-- The arguments are not understood. -/
  | usage
  /-- The arguments ask for help, or for the version. -/
  | help
  | version
deriving DecidableEq, Repr

/-! ## Options -/

/-- What follows the name of an option: nothing, a value, or a value that may look like an
option. -/
inductive OptionShape where
  | flag
  | value
  | anyValue
deriving DecidableEq, Repr

/-- The options for a path of an item. -/
def targetOptions : List (String × OptionShape) := [("item", .value), ("path", .value)]

/-- The options for where an edited document goes. -/
def destinationOptions : List (String × OptionShape) := [("out", .value), ("in-place", .flag)]

/-- The options for the fields of a record. -/
def changeOptions : List (String × OptionShape) :=
  [("kind", .value), ("name", .value), ("key", .value), ("amount", .anyValue),
    ("use-name", .value)]

/-- **The options of a command**, by its name. -/
def options : String → Option (List (String × OptionShape))
  | "items" | "scan" | "backup" => some []
  | "paths" => some [("item", .value)]
  | "show" => some (targetOptions ++ [("json", .flag)])
  | "commit" => some (targetOptions ++ destinationOptions ++ [("records", .value)])
  | "add" => some (targetOptions ++ destinationOptions ++ changeOptions)
  | "edit" => some (targetOptions ++ destinationOptions ++ changeOptions ++ [("index", .value)])
  | "delete" => some (targetOptions ++ destinationOptions ++ [("index", .value)])
  | "sync" => some (targetOptions ++ destinationOptions)
  | "dump" => some [("format", .value)]
  | _ => none

/-! ## Arguments by name -/

/-- Arguments by name. -/
structure Arguments where
  operand? : Option Text := none
  values : Entries Text := []
  flags : List Text := []
deriving DecidableEq, Repr

namespace Arguments

/-- One more operand. -/
def withOperand (a : Arguments) (t : Text) : Except Refusal Arguments :=
  if a.operand?.isSome then .error .usage else .ok { a with operand? := some t }

/-- One more option with a value. -/
def withValue (a : Arguments) (name t : Text) : Except Refusal Arguments :=
  if (Entries.get? name a.values).isSome then .error .usage
  else .ok { a with values := a.values ++ [(name, t)] }

/-- One more flag. -/
def withFlag (a : Arguments) (name : Text) : Except Refusal Arguments :=
  if a.flags.contains name then .error .usage else .ok { a with flags := a.flags ++ [name] }

/-- Two dashes, which end the options. -/
def endOfOptions : Text := ['-', '-']

/-- An argument that is taken for an option: it starts with a dash and is longer than that. -/
def looksLikeOption (t : Text) : Bool := t.head? == some '-' && t.length ≠ 1

/-- The shape of an option. -/
def shape? (options : List (String × OptionShape)) (name : Text) : Option OptionShape :=
  (options.find? fun (n, _) => n.toList == name).map Prod.snd

/-- The name of a long option, and the value behind its equals sign if there is one. -/
def splitLong (t : Text) : Text × Option Text :=
  match Text.cut? ['='] (t.drop 2) with
  | some (name, value) => (name, some value)
  | none => (t.drop 2, none)

/-- Arguments one by one. `pending?` is the option whose value comes next. -/
def collect (options : List (String × OptionShape)) :
    Option (Text × OptionShape) → Arguments → List Text → Except Refusal Arguments
  | none, a, [] => .ok a
  | some _, _, [] => .error .usage
  | some (name, shape), a, t :: ts =>
    if shape = .anyValue ∨ !looksLikeOption t then do
      collect options none (← a.withValue name t) ts
    else .error .usage
  | none, a, t :: ts =>
    if t = endOfOptions then ts.foldlM withOperand a
    else if !looksLikeOption t then do collect options none (← a.withOperand t) ts
    else if t.take 2 = endOfOptions then
      let (name, value?) := splitLong t
      match shape? options name, value? with
      | some .flag, none => do collect options none (← a.withFlag name) ts
      | some .flag, some _ => .error .usage
      | some _, some v => do collect options none (← a.withValue name v) ts
      | some shape, none =>
        -- A second one of its name is refused before its value is looked at.
        if (Entries.get? name a.values).isSome then .error .usage
        else collect options (some (name, shape)) a ts
      -- Help is asked for by a name alone, never by one with a value.
      | none, none => .error (if name = "help".toList then .help else .usage)
      | none, some _ => .error .usage
    else .error (if t.take 2 = "-h".toList then .help else .usage)

/-- The arguments of a command with given options. -/
def ofList (options : List (String × OptionShape)) (ts : List Text) : Except Refusal Arguments :=
  collect options none {} ts

/-! ## Values of arguments -/

/-- The operand, which is the path of a file or a directory and so is not empty. -/
def operand (a : Arguments) : Except Refusal Text :=
  match a.operand? with
  | some (c :: t) => .ok (c :: t)
  | _ => .error .usage

/-- The value of an option, if it is given. -/
def value? {α : Type} (a : Arguments) (name : String) (read : Text → Option α) :
    Except Refusal (Option α) :=
  match Entries.get? name.toList a.values with
  | none => .ok none
  | some t =>
    match read t with
    | some x => .ok (some x)
    | none => .error .usage

/-- The value of an option that must be given. -/
def value {α : Type} (a : Arguments) (name : String) (read : Text → Option α) :
    Except Refusal α := do
  match ← a.value? name read with
  | some x => return x
  | none => throw .usage

/-- A flag is given. -/
def hasFlag (a : Arguments) (name : String) : Bool := a.flags.contains name.toList

/-- A truth value. -/
def truth? (t : Text) : Option Bool :=
  if t = "true".toList then some true else if t = "false".toList then some false else none

/-- A format. -/
def format? (t : Text) : Option Document.Format :=
  if t = "yaml".toList then some .yaml else if t = "json".toList then some .json else none

/-- A text that is not empty. -/
def notEmpty? (t : Text) : Option Text := if t = [] then none else some t

/-- A path of an item of a file. -/
def target (a : Arguments) : Except Refusal Target := do
  return ⟨← a.operand, ← a.value "item" some, ← a.value "path" fun t => (ItemPath.read t).toOption⟩

/-- Where an edited document goes; there is one place at most. -/
def destination (a : Arguments) : Except Refusal Destination := do
  match ← a.value? "out" notEmpty?, a.hasFlag "in-place" with
  | some _, true => throw .usage
  | some path, false => return .file path
  | none, true => return .inPlace
  | none, false => return .printed

/-- The changes of a record. -/
def changes (a : Arguments) : Except Refusal Changes := do
  return {
    kind := ← a.value? "kind" Kind.read?
    name := ← a.value? "name" some
    key := ← a.value? "key" some
    amount := ← a.value? "amount" Numeral.readScientific?
    useName := ← a.value? "use-name" truth? }

/-- An index of a record. -/
def index (a : Arguments) : Except Refusal Nat := a.value "index" Value.position?

end Arguments

/-! ## Commands -/

/-- The command of a name with its arguments. -/
def Command.ofArguments (name : String) (a : Arguments) : Except Refusal Command := do
  match name with
  | "items" => return .items (← a.operand)
  | "paths" => return .paths (← a.operand) (← a.value "item" some)
  | "show" => return .records (← a.target) (a.hasFlag "json")
  | "commit" => return .commit (← a.target) (← a.value "records" some) (← a.destination)
  | "add" => return .add (← a.target) (← a.changes) (← a.destination)
  | "edit" => return .edit (← a.target) (← a.index) (← a.changes) (← a.destination)
  | "delete" => return .delete (← a.target) (← a.index) (← a.destination)
  | "sync" => return .spread (← a.target) (← a.destination)
  | "dump" =>
    return .dump (← a.operand) ((← a.value? "format" Arguments.format?).getD .yaml)
  | "scan" => return .scan (← a.operand)
  | "backup" => return .backup (← a.operand)
  | _ => throw .usage

/-- The arguments that ask for help, and those that ask for the version. -/
def isHelp (t : Text) : Bool := ["help", "-h", "--help"].any fun w => w.toList == t
def isVersion (t : Text) : Bool := ["-V", "--version"].any fun w => w.toList == t

/-- **The command that arguments ask for.** -/
def Command.read : List Text → Except Refusal Command
  | [] => .error .usage
  | t :: ts =>
    match options (String.ofList t) with
    | some options => do
      let a ← Arguments.ofList options ts
      Command.ofArguments (String.ofList t) a
    | none => .error (if isHelp t then .help else if isVersion t then .version else .usage)

end ItemConditions.CommandLine
