import SourceOutline.Engine
import SourceOutline.Text.Blank
import SourceOutline.Toml.Document

/-! Filters as they are written down: a table of defines and a table of call filters. -/
namespace SourceOutline

structure Definitions where
  defines : NameTable String
  calls : NameTable String
  deriving DecidableEq, Repr

namespace Definitions

def empty : Definitions := ⟨.empty, .empty⟩

/-- A name and a value with an equals sign between them. The value may be missing. -/
def parse (text : String) : Except FilterError (String × String) :=
  let cs := text.toList
  let name := String.ofList (Text.trim (cs.takeWhile (· != '=')))
  let value := String.ofList (Text.trim ((cs.dropWhile (· != '=')).drop 1))
  if name.isEmpty then .error (.invalidDefinition text "missing name") else .ok (name, value)

def addDefine (d : Definitions) (text : String) : Except FilterError Definitions :=
  (parse text).map fun entry => { d with defines := d.defines.insert entry.1 entry.2 }

def addCall (d : Definitions) (text : String) : Except FilterError Definitions :=
  (parse text).map fun entry => { d with calls := d.calls.insert entry.1 entry.2 }

/-- All entries of both; those of `other` win. -/
def merge (d other : Definitions) : Definitions :=
  ⟨d.defines.merge other.defines, d.calls.merge other.calls⟩

def size (d : Definitions) : Nat := d.defines.size + d.calls.size

def isEmpty (d : Definitions) : Bool := d.defines.isEmpty && d.calls.isEmpty

/-- The entries in the order in which they are registered. -/
def entries (d : Definitions) : List Engine.Definition :=
  (d.defines.entries.map fun e => (.define, e.1, e.2))
    ++ d.calls.entries.map fun e => (.call, e.1, e.2)

/-- Registers all entries up to the first failure. -/
def applyTo (d : Definitions) (e : Engine) : Reported (Except FilterError Unit × Engine) :=
  e.registerAll d.entries

/-- The texts under the names of one table. -/
def textsOf : Toml.Fields → Option (List (String × String))
  | [] => some []
  | (name, .string text) :: rest => (textsOf rest).map ((name, text) :: ·)
  | _ => none

/-- The name of the one entry of a date or time that stands in place of a table. -/
def momentName : String := "$__toml_private_datetime"

/-- A table of texts in a document; a missing one is empty. -/
def tableOf (name : String) (fields : Toml.Fields) : Option (NameTable String) :=
  match fields.get? name with
  | none => some .empty
  | some (.table _ inner) => (textsOf inner).map .ofList
  | some (.inline inner) => (textsOf inner).map .ofList
  | some (.moment text) => some (.ofList [(momentName, text)])
  | some _ => none

def ofFields? (fields : Toml.Fields) : Option Definitions := do
  return ⟨← tableOf "defines" fields, ← tableOf "macros" fields⟩

/-- The definitions of a TOML document that was found at `path`. -/
def ofToml (path text : String) : Except FilterError Definitions :=
  match (Toml.parse? text).bind ofFields? with
  | some d => .ok d
  | none => .error (.definitionsFile path "TOML parse error")

/-- The definitions of a TOML text that stands in no file. -/
def ofText (text : String) : Except FilterError Definitions := ofToml "<inline>" text

end Definitions
end SourceOutline
