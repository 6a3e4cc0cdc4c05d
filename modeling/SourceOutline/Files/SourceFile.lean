import SourceOutline.Diagnostic.Reported
import SourceOutline.Files.Disk

/-! Reading source files. -/
namespace SourceOutline

inductive FileError
  | notFound (path : String)
  | invalidPath (path : String)
  | tooLarge (size limit : Nat)
  | invalidEncoding (path : String)
  | io (path message : String)
  deriving DecidableEq, Repr

namespace FileError

def message : FileError → String
  | notFound path => s!"File not found: {path}"
  | invalidPath path => s!"Not a regular file: {path}"
  | tooLarge size limit => s!"File too large: {size} bytes (max: {limit})"
  | invalidEncoding path => s!"Invalid UTF-8 encoding in file: {path}"
  | io path message => s!"I/O error reading {path}: {message}"

def code : FileError → Code
  | notFound _ => .fileNotFound
  | invalidPath _ => .invalidPath
  | tooLarge .. => .fileTooLarge
  | invalidEncoding _ => .invalidEncoding
  | io .. => .ioFailure

/-- What a failure of the system means for a source file. -/
def ofSystem (path : String) : SystemError → FileError
  | .notFound => notFound path
  | .invalidText => invalidEncoding path
  | e => io path e.message

end FileError

/-- A source file in memory. -/
structure SourceFile where
  path : String
  source : String
  size : Nat

/-- Line ends count lines, and so does a text after the last of them. -/
def lineCount (source : String) : Nat :=
  let cs := source.toList
  let ends := cs.countP (· = '\n')
  match cs.getLast? with
  | none => 0
  | some c => if c = '\n' then ends else ends + 1

namespace SourceFile

/-- The most bytes of a file that is read. -/
def sizeLimit : Nat := 16 * 1024 * 1024

/-- A limit can be lowered only. -/
def lowered (limit : Nat) : Nat := min limit sizeLimit

def readingEvent (path : String) (size : Nat) : Event :=
  (Event.debug "Reading source file").withAll [("path", path), ("size", toString size)]

/-- The file at a path, if it is a text within the limit. -/
def load (disk : Disk) (limit : Nat) (path : String) :
    Reported (Except FileError SourceFile) :=
  match disk path with
  | .error e => .silent (.error (.ofSystem path e))
  | .ok (.directory _) => .silent (.error (.invalidPath path))
  | .ok (.file content) =>
    if limit < content.size then .silent (.error (.tooLarge content.size limit))
    else
      match content.text? with
      | some source => ⟨.ok ⟨path, source, content.size⟩, [readingEvent path content.size]⟩
      | none => ⟨.error (.invalidEncoding path), [readingEvent path content.size]⟩

/-- The report of a file that was read, or of the failure. -/
def outcomeEvent (path : String) : Except FileError SourceFile → Event
  | .ok file =>
    (Event.success .fileProcessed "Source file read").withAll
      [("path", file.path), ("size", toString file.size),
       ("lines", toString (lineCount file.source))]
  | .error e => (Event.error e.code e.message).withContext "path" path

/-- Reads a file and reports how it went. -/
def read (disk : Disk) (limit : Nat) (path : String) :
    Reported (Except FileError SourceFile) :=
  let r := load disk limit path
  ⟨r.value, r.events ++ [outcomeEvent path r.value]⟩

end SourceFile
end SourceOutline
