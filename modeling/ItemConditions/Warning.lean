import ItemConditions.Condition
import ItemConditions.ItemPath

/-!
# Warnings

What is worth a word although the operation goes on or fails with an error of its own.

## Main definitions

* `Warning`: the kinds of warning
* `Warning.message`: their wording
* `Remarked`: an answer together with the remarks made on the way to it
-/

namespace ItemConditions

/-- **A remark on an operation.** -/
inductive Warning where
  /-- A placeholder with both kinds of quote cannot be quoted. -/
  | bothQuotes (placeholder : Text)
  /-- A clause is written with another comparator than it was read with. -/
  | comparatorReplaced (clause : Text) (comparator : Comparator)
  /-- There is no place to write to. -/
  | slotMissing (item : Text) (path : ItemPath)
  /-- A target of a spread holds no sequence. -/
  | targetSkipped (path : ItemPath)
deriving DecidableEq, Repr

/-- The wording of a warning. -/
def Warning.message : Warning → String
  | .bothQuotes placeholder =>
    "placeholder " ++ String.ofList placeholder ++ " holds both quote kinds, clause kept as read"
  | .comparatorReplaced clause comparator =>
    "clause '" ++ String.ofList clause ++ "' used '" ++ comparator.sign ++ "', rewritten as '>='"
  | .slotMissing item path =>
    "path " ++ String.ofList path.text ++ " does not exist in item '" ++ String.ofList item
      ++ "', value not written"
  | .targetSkipped path =>
    "sync target " ++ String.ofList path.text ++ " is not a sequence, skipped"

/-- **An answer together with the remarks made on the way to it**, in their order. -/
structure Remarked (α : Type) where
  answer : α
  warnings : List Warning := []

end ItemConditions
