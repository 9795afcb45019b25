import ItemConditions.Placeholder
import ItemConditions.Warning

/-!
# Clauses

A clause compares a quoted placeholder with an amount: `vars("%player_level%") >= 10`. Text of any
other form is kept as it stands.

Clauses are always written with `>=`. Where that changes the comparator, or where a placeholder
holds both kinds of quote and so cannot be quoted, there is a warning.

## Main definitions

* `Clause.read`: the record of a clause
* `Clause.write`: the clause of a record
* `Clause.warning?`: what is worth a word when a record is written
-/

namespace ItemConditions

namespace Clause

/-- What a clause starts with. -/
def start : Text := "vars(".toList

/-- A text in quotes of either kind, and what follows it. -/
def quoted? : Text → Option (Text × Text)
  | '"' :: r => Text.cut? ['"'] r
  | '\'' :: r => Text.cut? ['\''] r
  | _ => none

/-- A comparator, and what follows it. -/
def comparator? : Text → Option (Comparator × Text)
  | '>' :: '=' :: r => some (.ge, r)
  | '<' :: '=' :: r => some (.le, r)
  | '=' :: '=' :: r => some (.eq, r)
  | '>' :: r => some (.gt, r)
  | '<' :: r => some (.lt, r)
  | _ => none

/-- The number of a clause: a minus sign may stand in front, a plus sign may not. -/
def number? : Text → Option Binary64
  | '-' :: t => (Numeral.unsigned? t).map (Binary64.ofDecimal true)
  | t => (Numeral.unsigned? t).map (Binary64.ofDecimal false)

/-- A closing parenthesis behind blanks, and what follows it. -/
def closed? (t : Text) : Option Text := [')'].isPrefixOf? (Text.trimStart t)

/-- The parts of a clause: its placeholder, comparator and number. Blanks may stand inside the
parentheses and around the comparator. -/
def parts? (t : Text) : Option (Text × Comparator × Binary64) := do
  let t ← start.isPrefixOf? t
  let (expression, t) ← quoted? (Text.trimStart t)
  let t ← closed? t
  let (comparator, t) ← comparator? (Text.trimStart t)
  let amount ← number? (Text.trimStart t)
  return (expression, comparator, amount)

/-- **The record of a clause**; text of any other form is kept. -/
def read (t : Text) : Record :=
  match parts? t with
  | some (expression, comparator, amount) =>
    { condition := (Placeholder.classify expression).setAmount amount
      rawText := t
      comparator := comparator }
  | none => .kept t

/-- The quotes for a placeholder: double ones unless it holds one; none if it holds both kinds. -/
def quote? (expression : Text) : Option Char :=
  if '"' ∉ expression then some '"'
  else if '\'' ∉ expression then some '\''
  else none

/-- A placeholder that is at least an amount. -/
def compose (quote : Char) (expression : Text) (amount : Binary64) : Text :=
  start ++ quote :: expression ++ quote :: ") >= ".toList ++ amount.toPlain

/-- **The clause of a record.** Kept text stands as it is; a record that cannot be quoted has the
text it was read from. -/
def write (r : Record) : Text :=
  match r.condition with
  | .raw t => t
  | c =>
    match Placeholder.expression? c with
    | none => r.rawText
    | some expression =>
      match quote? expression with
      | none => r.rawText
      | some quote => compose quote expression r.amount

/-- **The warning for a record that is written as a clause**, if there is one. -/
def warning? (r : Record) : Option Warning :=
  match Placeholder.expression? r.condition with
  | none => none
  | some expression =>
    if quote? expression = none then some (.bothQuotes expression)
    else if r.comparator = .ge then none
    else some (.comparatorReplaced r.rawText r.comparator)

end Clause

end ItemConditions
