/-! Places in a pattern, and what can be wrong there. -/
namespace SourceOutline.Regex

/-- Lines and columns count from one, offsets from zero; all count characters. -/
structure Place where
  offset : Nat
  line : Nat
  column : Nat
  deriving DecidableEq, Repr

namespace Place

def start : Place := ⟨0, 1, 1⟩

def step (p : Place) (c : Char) : Place :=
  if c = '\n' then ⟨p.offset + 1, p.line + 1, 1⟩ else ⟨p.offset + 1, p.line, p.column + 1⟩

end Place

/-- A part of a pattern, the end not included. -/
structure Extent where
  start : Place
  stop : Place
  deriving DecidableEq, Repr

namespace Extent

def point (p : Place) : Extent := ⟨p, p⟩

def isOneLine (e : Extent) : Bool := e.start.line = e.stop.line

end Extent

inductive Cause
  | classEscapeInvalid | classRangeInvalid | classRangeLiteral | classUnclosed
  | decimalEmpty | decimalInvalid
  | hexEmpty | hexInvalid | hexInvalidDigit
  | escapeUnexpectedEnd | escapeUnrecognized
  | flagDanglingNegation | flagDuplicate | flagRepeatedNegation | flagUnexpectedEnd
  | flagUnrecognized
  | groupNameDuplicate | groupNameEmpty | groupNameInvalid | groupNameUnexpectedEnd
  | groupUnclosed | groupUnopened
  | nestingTooDeep (limit : Nat)
  | countInvalid | countEmpty | countUnclosed | repetitionMissing
  | boundaryUnclosed | boundaryUnrecognized | boundaryUnexpectedEnd
  | propertyInvalid | backreference | lookAround
  | wideNotAllowed | invalidText | propertyNotFound | propertyValueNotFound
  | wideClassNotFound | wideCaseNotFound
  deriving DecidableEq, Repr

def Cause.message : Cause → String
  | classEscapeInvalid => "invalid escape sequence found in character class"
  | classRangeInvalid => "invalid character class range, the start must be <= the end"
  | classRangeLiteral => "invalid range boundary, must be a literal"
  | classUnclosed => "unclosed character class"
  | decimalEmpty => "decimal literal empty"
  | decimalInvalid => "decimal literal invalid"
  | hexEmpty => "hexadecimal literal empty"
  | hexInvalid => "hexadecimal literal is not a Unicode scalar value"
  | hexInvalidDigit => "invalid hexadecimal digit"
  | escapeUnexpectedEnd => "incomplete escape sequence, reached end of pattern prematurely"
  | escapeUnrecognized => "unrecognized escape sequence"
  | flagDanglingNegation => "dangling flag negation operator"
  | flagDuplicate => "duplicate flag"
  | flagRepeatedNegation => "flag negation operator repeated"
  | flagUnexpectedEnd => "expected flag but got end of regex"
  | flagUnrecognized => "unrecognized flag"
  | groupNameDuplicate => "duplicate capture group name"
  | groupNameEmpty => "empty capture group name"
  | groupNameInvalid => "invalid capture group character"
  | groupNameUnexpectedEnd => "unclosed capture group name"
  | groupUnclosed => "unclosed group"
  | groupUnopened => "unopened group"
  | nestingTooDeep limit =>
    s!"exceed the maximum number of nested parentheses/brackets ({limit})"
  | countInvalid => "invalid repetition count range, the start must be <= the end"
  | countEmpty => "repetition quantifier expects a valid decimal"
  | countUnclosed => "unclosed counted repetition"
  | repetitionMissing => "repetition operator missing expression"
  | boundaryUnclosed =>
    "special word boundary assertion is either unclosed or contains an invalid character"
  | boundaryUnrecognized =>
    "unrecognized special word boundary assertion, valid choices are: start, end, start-half or "
      ++ "end-half"
  | boundaryUnexpectedEnd =>
    "found either the beginning of a special word boundary or a bounded repetition on a \\b with "
      ++ "an opening brace, but no closing brace"
  | propertyInvalid => "invalid Unicode character class"
  | backreference => "backreferences are not supported"
  | lookAround => "look-around, including look-ahead and look-behind, is not supported"
  | wideNotAllowed => "Unicode not allowed here"
  | invalidText => "pattern can match invalid UTF-8"
  | propertyNotFound => "Unicode property not found"
  | propertyValueNotFound => "Unicode property value not found"
  | wideClassNotFound =>
    "Unicode-aware Perl class not found (make sure the unicode-perl feature is enabled)"
  | wideCaseNotFound =>
    "Unicode-aware case insensitivity matching is not available (make sure the unicode-case "
      ++ "feature is enabled)"

/-- What is wrong, where, and perhaps where its counterpart stands. -/
structure Fault where
  cause : Cause
  extent : Extent
  other : Option Extent
  deriving DecidableEq, Repr

namespace Fault

def extents (f : Fault) : List Extent :=
  match f.other with
  | none => [f.extent]
  | some e => if e.start.offset ≤ f.extent.start.offset then [e, f.extent] else [f.extent, e]

def repeated (n : Nat) (c : Char) : String := String.ofList (List.replicate n c)

/-- Lines without their ends. -/
def linesOf (pattern : String) : List String :=
  let lines := pattern.splitOn "\n"
  let lines := if lines.getLast? = some "" then lines.dropLast else lines
  lines.map fun l => if l.endsWith "\r" then String.ofList l.toList.dropLast else l

/-- Carets under the extents of one line, at least one for each. -/
def carets (extents : List Extent) : String :=
  (extents.foldl (fun (out : String × Nat) e =>
    let blanks := e.start.column - 1 - out.2
    let width := max 1 (e.stop.column - e.start.column)
    (out.1 ++ repeated blanks ' ' ++ repeated width '^', out.2 + blanks + width)) ("", 0)).1

/-- The lines of a pattern with carets below them. Several lines are numbered. -/
def notated (f : Fault) (pattern : String) : String :=
  let count := (linesOf pattern).length + if pattern.endsWith "\n" then 1 else 0
  let width := if count ≤ 1 then 0 else (toString count).length
  let lead (n : Nat) : String :=
    if width = 0 then "    " else repeated (width - (toString n).length) ' ' ++ toString n ++ ": "
  let margin := if width = 0 then 4 else 2 + width
  ((linesOf pattern).foldl (fun (out : String × Nat) l =>
    let here := f.extents.filter fun e => e.isOneLine && e.start.line = out.2
    let below := if here.isEmpty then "" else repeated margin ' ' ++ carets here ++ "\n"
    (out.1 ++ lead out.2 ++ l ++ "\n" ++ below, out.2 + 1)) ("", 1)).1

def lineNotes (f : Fault) : String :=
  let notes := (f.extents.filter (!·.isOneLine)).map fun e =>
    s!"on line {e.start.line} (column {e.start.column}) through line {e.stop.line} "
      ++ s!"(column {e.stop.column - 1})"
  if notes.isEmpty then "" else "\n".intercalate notes ++ "\n"

def text (f : Fault) (pattern : String) : String :=
  let rule := repeated 79 '~' ++ "\n"
  if pattern.toList.contains '\n' then
    "regex parse error:\n" ++ rule ++ f.notated pattern ++ rule ++ f.lineNotes
      ++ "error: " ++ f.cause.message
  else "regex parse error:\n" ++ f.notated pattern ++ "error: " ++ f.cause.message

end Fault
end SourceOutline.Regex
