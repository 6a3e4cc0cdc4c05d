import SourceOutline.Diagnostic.Event

/-! What a user may choose, and how the choices are read from environment variables. -/
namespace SourceOutline

structure LexPreferences where
  keepComments : Bool
  keepDirectives : Bool
  detailedMetrics : Bool
  deriving DecidableEq, Repr

structure FilterPreferences where
  logSubstitutions : Bool
  logRegistrations : Bool
  deriving DecidableEq, Repr

structure LogPreferences where
  structured : Bool
  least : Level
  fileContext : Bool
  deriving DecidableEq, Repr

structure Preferences where
  lexical : LexPreferences
  filters : FilterPreferences
  logging : LogPreferences
  deriving DecidableEq, Repr

namespace LexPreferences

/-- Everything is kept and counted. -/
def full : LexPreferences := ⟨true, true, true⟩

end LexPreferences

namespace Level

/-- Levels are given by name in any case, or by rank. -/
def ofText? (text : String) : Option Level :=
  match text.map Char.toLower with
  | "error" | "0" => some error
  | "warning" | "warn" | "1" => some warning
  | "info" | "2" => some info
  | "debug" | "3" => some debug
  | _ => none

def name : Level → String
  | error => "Error"
  | warning => "Warning"
  | info => "Info"
  | debug => "Debug"

end Level

namespace Preferences

/-- A flag is the exact word `true` or `false`; any other text counts as unset. -/
def flag (environment : NameTable String) (name : String) (unset : Bool) : Bool :=
  match environment.get? name with
  | some "true" => true
  | some "false" => false
  | _ => unset

def ofEnvironment (environment : NameTable String) : Preferences where
  lexical :=
    ⟨flag environment "CXX_LEXICAL_KEEP_COMMENTS" true,
     flag environment "CXX_LEXICAL_KEEP_DIRECTIVES" true,
     flag environment "CXX_LEXICAL_DETAILED_METRICS" true⟩
  filters :=
    ⟨flag environment "CXX_PREPROCESSOR_LOG_SUBSTITUTIONS" false,
     flag environment "CXX_PREPROCESSOR_LOG_REGISTRATIONS" true⟩
  logging :=
    ⟨flag environment "CXX_LOGGING_USE_STRUCTURED" false,
     ((environment.get? "CXX_LOGGING_MIN_LEVEL").bind Level.ofText?).getD .info,
     flag environment "CXX_LOGGING_INCLUDE_FILE_CONTEXT" true⟩

/-- The variables that are read. -/
def variableNames : List String :=
  ["CXX_LEXICAL_KEEP_COMMENTS", "CXX_LEXICAL_KEEP_DIRECTIVES", "CXX_LEXICAL_DETAILED_METRICS",
   "CXX_PREPROCESSOR_LOG_SUBSTITUTIONS", "CXX_PREPROCESSOR_LOG_REGISTRATIONS",
   "CXX_LOGGING_USE_STRUCTURED", "CXX_LOGGING_MIN_LEVEL", "CXX_LOGGING_INCLUDE_FILE_CONTEXT"]

/-- The choices when no variable is set. -/
def standard : Preferences := ofEnvironment .empty

end Preferences
end SourceOutline
