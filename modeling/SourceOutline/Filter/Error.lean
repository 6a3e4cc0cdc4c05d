import SourceOutline.TokenSource

/-! What can go wrong when filters are made, registered or applied. -/
namespace SourceOutline

/-- A define fires at every occurrence of its name; a call filter fires where its name is called. -/
inductive FilterKind
  | define | call
  deriving DecidableEq, Repr

def FilterKind.name : FilterKind → String
  | define => "define"
  | call => "macro"

inductive FilterError
  | invalidTriggerName (kind : FilterKind) (name reason : String)
  | duplicateFilter (name : String) (kind existing : FilterKind)
  | unbalancedArguments (name : String) (span : Span)
  | argumentsTooLong (name : String) (span : Span)
  | invalidReplacement (name : String) (cause : LexError)
  | source (error : LexError)
  | tooManyFilters (count : Nat)
  | invalidDefinition (text reason : String)
  | definitionsFile (path message : String)
  deriving DecidableEq, Repr

namespace FilterError

/-- The most filters an engine holds. -/
def filterLimit : Nat := 10000

/-- The most tokens that are dropped as one argument list. -/
def argumentLimit : Nat := 100000

def message : FilterError → String
  | invalidTriggerName kind name reason => s!"Invalid {kind.name} name '{name}': {reason}"
  | duplicateFilter name kind existing =>
    s!"Cannot register {kind.name} '{name}': already registered as a {existing.name}"
  | unbalancedArguments name span =>
    s!"Argument list of macro '{name}' invoked at {span.text} is not closed before end of input"
  | argumentsTooLong name span =>
    s!"Argument list of macro '{name}' invoked at {span.text} exceeds {argumentLimit} tokens"
  | invalidReplacement name cause =>
    s!"Replacement of '{name}' cannot be tokenized: {cause.message}"
  | source error => s!"Lexical error: {error.message}"
  | tooManyFilters count => s!"Too many defines and macros: {count} (max {filterLimit})"
  | invalidDefinition text reason => s!"Invalid definition '{text}': {reason}"
  | definitionsFile path message => s!"Cannot load definitions from {path}: {message}"

def code : FilterError → Code
  | invalidTriggerName .. => .invalidTriggerName
  | duplicateFilter .. => .duplicateFilter
  | unbalancedArguments .. => .unbalancedArguments
  | argumentsTooLong .. => .argumentsTooLong
  | invalidReplacement .. => .invalidReplacement
  | source error => error.code
  | tooManyFilters _ => .tooManyFilters
  | invalidDefinition .. => .invalidDefinition
  | definitionsFile .. => .invalidDefinition

/-- The place of the error, when it has one. -/
def span? : FilterError → Option Span
  | unbalancedArguments _ span => some span
  | argumentsTooLong _ span => some span
  | _ => none

/-- The report of an error that a source has not reported already. -/
def report (e : FilterError) : List Event :=
  match e with
  | source _ => []
  | _ =>
    let event := Event.error e.code e.message
    [match e.span? with
      | some span => event.atSpan span
      | none => event]

end FilterError
end SourceOutline
