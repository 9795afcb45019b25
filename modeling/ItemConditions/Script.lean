import ItemConditions.Clause

/-!
# Condition scripts

A condition script is a text of clauses joined by `&&`, all of which have to hold, with the mark
`js:` in front or not. It is always written with the mark; several clauses stand on lines of their
own.

## Main definitions

* `Script.read`: the records of a script
* `Script.write?`: the script of a list of records
* `Script.warnings`: what is worth a word when the list is written
-/

namespace ItemConditions

namespace Script

/-- The mark in front of a script. -/
def mark : Text := "js:".toList

/-- The pieces between the double ampersands; of three in a row the first two separate. -/
def pieces : Text → List Text
  | '&' :: '&' :: r => [] :: pieces r
  | c :: r =>
    match pieces r with
    | [] => [[c]]
    | piece :: more => (c :: piece) :: more
  | [] => [[]]

/-- **The records of a script**, in order; pieces of nothing but blanks are skipped. -/
def read (t : Text) : List Record :=
  let t := Text.trim t
  let body := (mark.isPrefixOf? t).getD t
  (((pieces body).map Text.trim).filter (· ≠ [])).map Clause.read

/-- What stands between two clauses. -/
def separator : Text := " &&\n  ".toList

/-- **The script of a list of records**; the empty list has none. -/
def write? (rs : List Record) : Option Text :=
  match rs.map Clause.write with
  | [] => none
  | [clause] => some (mark ++ ' ' :: clause)
  | clauses => some (mark ++ "\n  ".toList ++ List.intercalate separator clauses)

/-- **The warnings for a list that is written**, in the order of the records. -/
def warnings (rs : List Record) : List Warning := rs.filterMap Clause.warning?

end Script

end ItemConditions
