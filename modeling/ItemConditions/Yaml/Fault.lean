import ItemConditions.Text

/-!
# Faults of a YAML text

Why a text is no YAML document, and where.

## Main definitions

* `Yaml.Mark`: a place in a text
* `Yaml.Problem`: what is wrong
* `Yaml.Fault`: what is wrong, and where if that can be told
-/

namespace ItemConditions.Yaml

/-- **A place in a text**: the number of bytes in front of it; lines, and characters in a line, are
counted from zero. -/
structure Mark where
  index : Nat := 0
  line : Nat := 0
  column : Nat := 0
deriving DecidableEq, Repr, Inhabited

/-- **What is wrong with a text.** -/
inductive Problem where
  | forbiddenCharacter
  | startsNoToken
  | keyWithoutColon
  | entryNotAllowed
  | keyNotAllowed
  | valueNotAllowed
  | directiveNameMissing
  | directiveNameEnd
  | directiveUnknown
  | directiveEnd
  | versionDigit
  | versionMissing
  | versionTooLong
  | tagDirectiveBlank
  | tagDirectiveEnd
  | anchorName
  | tagBang
  | tagClosing
  | tagEnd
  | tagMissing
  | uriOctet
  | uriLeadingOctet
  | uriTrailingOctet
  | blockIndentZero
  | blockHeaderEnd
  | blockTab
  | quotedIndicator
  | quotedUnfinished
  | escapeUnknown
  | escapeDigits
  | escapeCode
  | plainColon
  | plainTab
  | documentStartMissing
  | versionDuplicate
  | versionUnsupported
  | tagHandleDuplicate
  | tagHandleUnknown
  | nodeMissing
  | dashMissing
  | blockKeyMissing
  | flowSequenceEnd
  | flowMappingEnd
  | anchorUnknown
  | tooDeep
  | duplicateKey (description : Text)
  | wrongType (found expected : Text)
  | wrongValue (found expected : Text)
deriving DecidableEq, Repr

/-- The wording of a problem. -/
def Problem.message : Problem → String
  | .forbiddenCharacter => "control characters are not allowed"
  | .startsNoToken => "found character that cannot start any token"
  | .keyWithoutColon => "could not find expected ':'"
  | .entryNotAllowed => "block sequence entries are not allowed in this context"
  | .keyNotAllowed => "mapping keys are not allowed in this context"
  | .valueNotAllowed => "mapping values are not allowed in this context"
  | .directiveNameMissing => "could not find expected directive name"
  | .directiveNameEnd => "found unexpected non-alphabetical character"
  | .directiveUnknown => "found unknown directive name"
  | .directiveEnd | .blockHeaderEnd => "did not find expected comment or line break"
  | .versionDigit => "did not find expected digit or '.' character"
  | .versionMissing => "did not find expected version number"
  | .versionTooLong => "found extremely long version number"
  | .tagDirectiveBlank => "did not find expected whitespace"
  | .tagDirectiveEnd | .tagEnd => "did not find expected whitespace or line break"
  | .anchorName => "did not find expected alphabetic or numeric character"
  | .tagBang => "did not find expected '!'"
  | .tagClosing => "did not find the expected '>'"
  | .tagMissing => "did not find expected tag URI"
  | .uriOctet => "did not find URI escaped octet"
  | .uriLeadingOctet => "found an incorrect leading UTF-8 octet"
  | .uriTrailingOctet => "found an incorrect trailing UTF-8 octet"
  | .blockIndentZero => "found an indentation indicator equal to 0"
  | .blockTab => "found a tab character where an indentation space is expected"
  | .quotedIndicator => "found unexpected document indicator"
  | .quotedUnfinished => "found unexpected end of stream"
  | .escapeUnknown => "found unknown escape character"
  | .escapeDigits => "did not find expected hexdecimal number"
  | .escapeCode => "found invalid Unicode character escape code"
  | .plainColon => "found unexpected ':'"
  | .plainTab => "found a tab character that violates indentation"
  | .documentStartMissing => "did not find expected <document start>"
  | .versionDuplicate => "found duplicate %YAML directive"
  | .versionUnsupported => "found incompatible YAML document"
  | .tagHandleDuplicate => "found duplicate %TAG directive"
  | .tagHandleUnknown => "found undefined tag handle"
  | .nodeMissing => "did not find expected node content"
  | .dashMissing => "did not find expected '-' indicator"
  | .blockKeyMissing => "did not find expected key"
  | .flowSequenceEnd => "did not find expected ',' or ']'"
  | .flowMappingEnd => "did not find expected ',' or '\x7d'"
  | .anchorUnknown => "unknown anchor"
  | .tooDeep => "recursion limit exceeded"
  | .duplicateKey description => "duplicate entry " ++ String.ofList description
  | .wrongType found expected =>
    "invalid type: " ++ String.ofList found ++ ", expected " ++ String.ofList expected
  | .wrongValue found expected =>
    "invalid value: " ++ String.ofList found ++ ", expected " ++ String.ofList expected

/-- What is wrong with a text as a whole, at no place of it. -/
inductive GeneralProblem where
  | severalDocuments
  | tooManyAliases
  | mergeOfScalar
  | mergeElementScalar
  | mergeElementSequence
  | mergeTagged
  | keyNotText
  | keyNotFinite
deriving DecidableEq, Repr

/-- The wording of a problem. -/
def GeneralProblem.message : GeneralProblem → String
  | .severalDocuments =>
    "deserializing from YAML containing more than one document is not supported"
  | .tooManyAliases => "repetition limit exceeded"
  | .mergeOfScalar => "expected a mapping or list of mappings for merging, but found scalar"
  | .mergeElementScalar => "expected a mapping for merging, but found scalar"
  | .mergeElementSequence => "expected a mapping for merging, but found sequence"
  | .mergeTagged => "unexpected tagged value in merge"
  | .keyNotText => "key must be a string"
  | .keyNotFinite => "float key must be finite (got NaN or +/-inf)"

/-- **Why a text is no YAML document.** The path is empty for a problem of the text's form. -/
inductive Fault where
  | marked (problem : Problem) (path : Text) (mark : Mark)
  | general (problem : GeneralProblem)
deriving DecidableEq, Repr

namespace Fault

/-- A fault of the text's form. -/
def here (problem : Problem) (mark : Mark) : Fault := .marked problem [] mark

/-- The place of a fault. -/
def mark? : Fault → Option Mark
  | .marked _ _ mark => some mark
  | .general _ => none

/-- The line of a fault, counted from one. -/
def line? (e : Fault) : Option Nat := e.mark?.map fun mark => mark.line + 1

/-- The place of a mark, which is left out at the very start. -/
def placeText (mark : Mark) : String :=
  if mark.line = 0 ∧ mark.column = 0 then ""
  else " at line " ++ toString (mark.line + 1) ++ " column " ++ toString (mark.column + 1)

/-- The wording of a fault: the path, what is wrong, and where. -/
def message : Fault → String
  | .marked problem path mark =>
    (if path = [] then "" else String.ofList path ++ ": ") ++ problem.message ++ placeText mark
  | .general problem => problem.message

end Fault

end ItemConditions.Yaml
