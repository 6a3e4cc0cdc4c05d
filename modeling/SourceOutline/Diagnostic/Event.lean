import SourceOutline.Diagnostic.Code
import SourceOutline.Json
import SourceOutline.NameTable
import SourceOutline.Position

/-! Events that the library reports. -/
namespace SourceOutline

inductive Level
  | error | warning | info | debug
  deriving DecidableEq, Repr

namespace Level

def label : Level → String
  | error => "ERROR"
  | warning => "WARN"
  | info => "INFO"
  | debug => "DEBUG"

/-- The gravest comes first. -/
def rank : Level → Nat
  | error => 0
  | warning => 1
  | info => 2
  | debug => 3

/-- Whether an event of level `l` passes where `least` is the least grave level shown. -/
def passes (l least : Level) : Bool := l.rank ≤ least.rank

end Level

structure Event where
  level : Level
  code : Code
  message : String
  span : Option Span
  context : NameTable String
  deriving DecidableEq, Repr

namespace Event

/-- The most bytes of a message that are kept. -/
def messageLimit : Nat := 10000

/-- As many leading characters as have room in `room` bytes. -/
def fitting (room : Nat) : List Char → List Char
  | [] => []
  | c :: cs => if c.utf8Size ≤ room then c :: fitting (room - c.utf8Size) cs else []

/-- A message cut to the limit, with dots in place of the rest. -/
def clip (message : String) : String :=
  if message.utf8ByteSize ≤ messageLimit then message
  else String.ofList (fitting messageLimit message.toList) ++ "..."

def plain (level : Level) (code : Code) (message : String) : Event :=
  ⟨level, code, clip message, none, .empty⟩

def error (code : Code) (message : String) : Event := plain .error code message

/-- The report of something that went well. -/
def success (code : Code) (message : String) : Event := plain .info code message

def warning (message : String) : Event := plain .warning .warning message

def info (message : String) : Event := plain .info .info message

def debug (message : String) : Event := plain .debug .debug message

def atSpan (e : Event) (span : Span) : Event := { e with span := some span }

def withContext (e : Event) (key value : String) : Event :=
  { e with context := e.context.insert key value }

/-- Adds entries in turn; a later one of the same key wins. -/
def withAll (e : Event) (entries : List (String × String)) : Event :=
  entries.foldl (fun e entry => e.withContext entry.1 entry.2) e

/-- Marks the event with the file that is being worked on. -/
def inFile (file : Option String) (e : Event) : Event :=
  match file with
  | some path => e.withContext "file" path
  | none => e

def isError (e : Event) : Bool := e.level == .error

def isInfo (e : Event) : Bool := e.level == .info

/-- One line of text: level, code, message, place, context. -/
def text (e : Event) : String :=
  let place := match e.span with
    | some s => " at " ++ s.start.text
    | none => ""
  let head := "[" ++ e.level.label ++ "] " ++ e.code.text ++ " - " ++ e.message ++ place
  e.context.entries.foldl (fun line entry => line ++ " " ++ entry.1 ++ "=" ++ entry.2) head

/-- The fields of the JSON text, in the order of their names. -/
def toJson (e : Event) (seconds : Nat) : Json :=
  let context := if e.context.isEmpty then [] else
    [("context", Json.record (e.context.entries.map fun entry => (entry.1, Json.ofString entry.2)))]
  let errorFields := if !e.isError then [] else
    [("error_metadata", Json.record
      [("description", Json.ofString e.code.description),
       ("recommended_action", Json.ofString e.code.action),
       ("recoverable", Json.bool e.code.recoverable),
       ("requires_halt", Json.bool e.code.halts)])]
  let place := match e.span with
    | none => []
    | some s => [("span", Json.record
      [("end_column", Json.ofNat s.stop.column), ("end_line", Json.ofNat s.stop.line),
       ("start_column", Json.ofNat s.start.column), ("start_line", Json.ofNat s.start.line)])]
  Json.record <|
    [("category", Json.ofString e.code.category), ("code", Json.ofString e.code.text)]
    ++ context ++ errorFields
    ++ [("level", Json.ofString e.level.label), ("message", Json.ofString e.message),
        ("severity", Json.ofString e.code.severity.name)]
    ++ place ++ [("timestamp", Json.ofNat seconds)]

end Event
end SourceOutline
