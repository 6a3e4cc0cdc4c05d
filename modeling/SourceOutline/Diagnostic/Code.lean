/-! The codes under which events are reported, and what is known about each. -/
namespace SourceOutline

structure Code where
  text : String
  deriving DecidableEq, Repr

inductive Severity
  | critical | high | medium | low
  deriving DecidableEq, Repr

namespace Severity

def name : Severity → String
  | critical => "Critical"
  | high => "High"
  | medium => "Medium"
  | low => "Low"

/-- The gravest comes first. -/
def rank : Severity → Nat
  | critical => 0
  | high => 1
  | medium => 2
  | low => 3

end Severity

/-- What is known about a code. -/
structure CodeNote where
  code : Code
  category : String
  severity : Severity
  recoverable : Bool
  halts : Bool
  description : String
  action : String

namespace Code

def internalError : Code := ⟨"ERR001"⟩
def initializationFailure : Code := ⟨"ERR002"⟩

def fileNotFound : Code := ⟨"E005"⟩
def invalidPath : Code := ⟨"E006"⟩
def fileTooLarge : Code := ⟨"E007"⟩
def invalidEncoding : Code := ⟨"E010"⟩
def ioFailure : Code := ⟨"E011"⟩

def invalidCharacter : Code := ⟨"E020"⟩
def unterminatedLiteral : Code := ⟨"E021"⟩
def unterminatedComment : Code := ⟨"E022"⟩
def identifierTooLong : Code := ⟨"E023"⟩
def tooManyTokens : Code := ⟨"E027"⟩

def invalidTriggerName : Code := ⟨"E060"⟩
def duplicateFilter : Code := ⟨"E061"⟩
def unbalancedArguments : Code := ⟨"E062"⟩
def invalidReplacement : Code := ⟨"E063"⟩
def tooManyFilters : Code := ⟨"E064"⟩
def invalidDefinition : Code := ⟨"E065"⟩
def argumentsTooLong : Code := ⟨"E066"⟩

def invalidScopeName : Code := ⟨"E070"⟩
def duplicateTypeName : Code := ⟨"E071"⟩
def scopeNestingTooDeep : Code := ⟨"E072"⟩

def warning : Code := ⟨"W000"⟩
def info : Code := ⟨"I000"⟩
def debug : Code := ⟨"D000"⟩

def loggingStarted : Code := ⟨"I004"⟩
def fileProcessed : Code := ⟨"I006"⟩
def tokenizationComplete : Code := ⟨"I020"⟩
def filterRegistered : Code := ⟨"I030"⟩
def filteringComplete : Code := ⟨"I031"⟩
def outlineComplete : Code := ⟨"I040"⟩

/-- The error codes. Codes of other events have no note. -/
def notes : List CodeNote :=
  [⟨internalError, "System", .critical, false, true, "Critical internal error",
      "File a bug report with the input that triggered it"⟩,
   ⟨initializationFailure, "System", .critical, false, true, "Initialization failure",
      "Check logging configuration and environment variables"⟩,
   ⟨fileNotFound, "FileProcessing", .high, true, false, "Input file not found",
      "Check the path passed on the command line"⟩,
   ⟨invalidPath, "FileProcessing", .high, true, false, "Path is not a regular file",
      "Pass a source file or a directory to walk"⟩,
   ⟨fileTooLarge, "FileProcessing", .high, true, false, "Input file exceeds the maximum size",
      "Split the translation unit or skip generated sources"⟩,
   ⟨invalidEncoding, "FileProcessing", .high, true, false, "Input file is not valid UTF-8",
      "Convert the file to UTF-8"⟩,
   ⟨ioFailure, "FileProcessing", .high, true, false, "I/O error while reading input",
      "Check file permissions and disk state"⟩,
   ⟨invalidCharacter, "Lexical", .high, false, true,
      "Character outside the C++ basic source character set", "Remove or escape the character"⟩,
   ⟨unterminatedLiteral, "Lexical", .high, false, true,
      "Character or string literal is not terminated",
      "Close the literal before the end of the line"⟩,
   ⟨unterminatedComment, "Lexical", .high, false, true, "Block comment is not terminated",
      "Add the closing */"⟩,
   ⟨identifierTooLong, "Lexical", .medium, false, true, "Identifier exceeds the maximum length",
      "Shorten the identifier"⟩,
   ⟨tooManyTokens, "Lexical", .high, false, true, "Input produced more tokens than allowed",
      "Split the input"⟩,
   ⟨invalidTriggerName, "Preprocessor", .high, false, true,
      "Define or macro name is not a single identifier",
      "Use a plain identifier without scope qualifiers"⟩,
   ⟨duplicateFilter, "Preprocessor", .high, false, true, "Define or macro registered twice",
      "Remove the redefinition"⟩,
   ⟨unbalancedArguments, "Preprocessor", .high, false, true,
      "Macro argument list not closed before end of input",
      "Check the parentheses following the macro invocation"⟩,
   ⟨invalidReplacement, "Preprocessor", .high, false, true,
      "Replacement value cannot be tokenized", "Fix the replacement text"⟩,
   ⟨tooManyFilters, "Preprocessor", .medium, false, true,
      "Too many defines and macros registered", "Reduce the number of definitions"⟩,
   ⟨invalidDefinition, "Preprocessor", .high, false, true,
      "Definition text or file could not be parsed",
      "Use NAME=VALUE or a TOML file with [defines] and [macros] tables"⟩,
   ⟨argumentsTooLong, "Preprocessor", .high, false, true,
      "Macro argument list exceeds the token limit", "Check for a missing closing parenthesis"⟩,
   ⟨invalidScopeName, "Scope", .high, false, true,
      "Scope or type name contains a scope qualifier",
      "Declare nested names from inside their enclosing scope"⟩,
   ⟨duplicateTypeName, "Scope", .medium, true, false,
      "Type name declared twice in the same scope", "Remove the duplicate declaration"⟩,
   ⟨scopeNestingTooDeep, "Scope", .high, false, true, "Scopes nested deeper than allowed",
      "Flatten the nesting"⟩]

def note? (c : Code) : Option CodeNote := notes.find? (·.code = c)

def category (c : Code) : String := (c.note?.map (·.category)).getD "Unknown"

def severity (c : Code) : Severity := (c.note?.map (·.severity)).getD .medium

def recoverable (c : Code) : Bool := (c.note?.map (·.recoverable)).getD true

/-- Whether work cannot go on after an event under this code. -/
def halts (c : Code) : Bool := (c.note?.map (·.halts)).getD false

def description (c : Code) : String := (c.note?.map (·.description)).getD "Unknown error"

def action (c : Code) : String := (c.note?.map (·.action)).getD "No specific action available"

end Code
end SourceOutline
