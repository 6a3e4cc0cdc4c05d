import SourceOutline.Definitions
import SourceOutline.Files.SourceFile
import SourceOutline.Outline
import SourceOutline.Text.Blank
import SourceOutline.Token.Record
import SourceOutline.Writer

/-! Listing the tokens or the outline of a source text. -/
namespace SourceOutline

inductive DumpMode
  | tokens | outline
  deriving DecidableEq, Repr

inductive DumpFormat
  | text | json
  deriving DecidableEq, Repr

structure DumpOptions where
  mode : DumpMode
  format : DumpFormat
  trivia : Bool
  deriving DecidableEq, Repr

inductive DumpError
  | file (error : FileError)
  | filter (error : FilterError)
  | scope (error : ScopeError)
  | output (reason : String)
  deriving DecidableEq, Repr

namespace DumpError

def message : DumpError → String
  | file e => e.message
  | filter e => e.message
  | scope e => e.message
  | output reason => s!"Failed to write output: {reason}"

def code : DumpError → Code
  | file e => e.code
  | filter e => e.code
  | scope e => e.code
  | output _ => .ioFailure

end DumpError

namespace Listing

/-- One aligned line: a place, a label, an image. -/
def line (p : Position) (label image : String) : String :=
  Text.padLeft 5 (toString p.line) ++ ":" ++ Text.padRight 4 (toString p.column) ++ " "
    ++ Text.padRight 9 label ++ " " ++ image

def triviaLabel (kind : TriviaKind) : String := if kind.isComment then "COMMENT" else "DIRECTIVE"

/-- Blanks at the end of trivia are left out. -/
def triviaLine (t : Trivia) : String :=
  line t.span.start (triviaLabel t.kind) (String.ofList (Text.trimEnd t.image.toList))

def tokenRecord (trivia : Bool) (t : Token) : Json :=
  .record <|
    [("kind", .ofString t.kind.name), ("image", .ofString t.image), ("line", .ofNat t.beginLine),
     ("column", .ofNat t.beginColumn), ("end_line", .ofNat t.endLine),
     ("end_column", .ofNat t.endColumn)]
    ++ if trivia && !t.trivia.isEmpty then [("trivia", .array (t.trivia.map Trivia.toJson))] else []

def tokenLines (format : DumpFormat) (trivia : Bool) (t : Token) : List String :=
  match format with
  | .json => [(tokenRecord trivia t).compact]
  | .text =>
    (if trivia then t.trivia.map triviaLine else []) ++ [line t.span.start t.kind.label t.image]

def ofTokens (format : DumpFormat) (trivia : Bool) (tokens : List Token) : List String :=
  tokens.flatMap (tokenLines format trivia)

def entryLine (format : DumpFormat) (e : Entry) : String :=
  match format with
  | .json => e.toJson.compact
  | .text => e.text

def ofEntries (format : DumpFormat) (entries : List Entry) : List String :=
  entries.map (entryLine format)

end Listing

namespace Dump

/-- An engine over a text with all definitions registered. -/
def createEngine (preferences : Preferences) (d : Definitions) :
    Reported (Except FilterError Engine) :=
  let r := d.applyTo (.ofSource (.text (.ofString preferences.lexical "")) preferences.filters)
  ⟨r.value.1.map fun _ => r.value.2, r.events⟩

/-- The outcome of one listing, with all that it changed. -/
structure Turn (σ : Type) where
  result : Except DumpError Unit
  engine : Engine
  sink : σ
  events : List Event

def outlineEvent (o : Outline) : Event :=
  (Event.success .outlineComplete "Outline built").withAll
    [("entries", toString o.entries.length), ("scopes", toString o.tree.size)]

/-- The lines that list tokens. -/
def lines (options : DumpOptions) (tokens : List Token) :
    Reported (Except ScopeError (List String)) :=
  match options.mode with
  | .tokens => ⟨.ok (Listing.ofTokens options.format options.trivia tokens), []⟩
  | .outline =>
    let o := Outline.ofTokens tokens
    match o.value with
    | .error error => ⟨.error error, o.events⟩
    | .ok outline =>
      ⟨.ok (Listing.ofEntries options.format outline.entries), o.events ++ [outlineEvent outline]⟩

/-- Lists a source text. Nothing is written when it cannot be read. -/
def source {σ : Type} [Writer σ] (e : Engine) (options : DumpOptions) (text : String) (sink : σ) :
    Turn σ :=
  let turn := e.tokenizeAll text
  match turn.result with
  | .error error => ⟨.error (.filter error), turn.engine, sink, turn.events⟩
  | .ok tokens =>
    let listed := lines options tokens
    match listed.value with
    | .error error => ⟨.error (.scope error), turn.engine, sink, turn.events ++ listed.events⟩
    | .ok lines =>
      let done := Writer.writeLines sink lines
      ⟨done.1.mapError .output, turn.engine, done.2, turn.events ++ listed.events⟩

/-- Reads a file and lists it. -/
def file (disk : Disk) (e : Engine) (options : DumpOptions) (path : String) (sink : Sink) :
    Turn Sink :=
  let r := SourceFile.read disk SourceFile.sizeLimit path
  match r.value with
  | .error error => ⟨.error (.file error), e, sink, r.events⟩
  | .ok f =>
    let turn := source e options f.source sink
    { turn with events := r.events ++ turn.events }

end Dump
end SourceOutline
