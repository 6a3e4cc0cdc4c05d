import SourceOutline.CommandLine.Arguments
import SourceOutline.CommandLine.Clock
import SourceOutline.CommandLine.Help
import SourceOutline.CommandLine.LogFilter
import SourceOutline.Diagnostic.SharedLog
import SourceOutline.Files.DefinitionsFile
import SourceOutline.Text.Control

/-! A run of the program, from its arguments to its output. -/
namespace SourceOutline.CommandLine

/-- What goes to the error stream: lines of the program, and events that the log shows or not. -/
inductive Message
  | line (text : String)
  | event (e : Event)

/-- How events become lines. -/
structure Log where
  output : LogOutput
  least : Level
  filter : LogFilter
  clock : Clock

namespace Log

/-- The name under which events pass the filter. -/
def target : String := "cxx_frontend"

/-- Further lines of a message are moved in. -/
def indented (text : String) : String := text.replace "\n" "\n    "

/-- A line of the facade, with its end. Control sequences are taken out of it, and one that stays
open may swallow the end. -/
def facadeLine (clock : Clock) (e : Event) : String :=
  Text.visible <|
    "[" ++ clock.stamp ++ Text.padRight 5 e.level.label ++ " " ++ target ++ "] "
      ++ indented e.text ++ "\n"

/-- What is written for an event. -/
def eventText (log : Log) (e : Event) : String :=
  if !e.level.passes log.least then ""
  else
    match log.output with
    | .console => e.text ++ "\n"
    | .json => (e.toJson log.clock.seconds).compact ++ "\n"
    | .facade => if log.filter.passes target e.level e.text then facadeLine log.clock e else ""

def messageText (log : Log) : Message → String
  | .line text => text ++ "\n"
  | .event e => log.eventText e

/-- The text of messages that stand last one first. -/
def text (log : Log) (messages : List Message) : String :=
  messages.reverse.foldl (fun out m => out ++ log.messageText m) ""

end Log

/-- The state between two files. Messages stand last one first. -/
structure Session where
  engine : Engine
  sink : Sink
  messages : List Message
  failed : Nat

namespace Session

def logged (events : List Event) (messages : List Message) : List Message :=
  (events.map Message.event).reverse ++ messages

def skippedEvent (path : String) (e : DumpError) : Event :=
  (Event.error e.code "File skipped").withAll [("file", path), ("error", e.message)]

/-- Lists one file; the events on the way carry its path where `marked` says so. -/
def dump (disk : Disk) (options : DumpOptions) (headed marked : Bool) (s : Session)
    (path : String) : Session :=
  let sink := if headed then (s.sink.write s!"==> {path} <==\n").2 else s.sink
  let turn := Dump.file disk s.engine options path sink
  let log : SharedLog := ⟨true, marked, some path⟩
  let messages := logged (turn.events.map log.mark) s.messages
  match turn.result with
  | .ok () => ⟨turn.engine, turn.sink, messages, s.failed⟩
  | .error e =>
    ⟨turn.engine, turn.sink,
     .event (skippedEvent path e) :: .line s!"{path}: {e.message}" :: messages, s.failed + 1⟩

end Session

/-- The definitions of a file with those of the command line laid over them. -/
def definitions (disk : Disk) (a : Arguments) : Except FilterError Definitions := do
  let base ← match a.definitions with
    | some path => Definitions.ofFile disk path
    | none => .ok .empty
  let defined ← a.defines.foldlM Definitions.addDefine .empty
  let added ← a.calls.foldlM Definitions.addCall defined
  return base.merge added

/-- What a run came to before it is concluded. -/
inductive Progress
  /-- The run is over early. -/
  | ended (messages : List Message)
  /-- All of `files` files were tried. -/
  | complete (session : Session) (files : Nat)

def registeredEvent (d : Definitions) : Event :=
  (Event.info "Filters registered").withContext "count" (toString d.size)

/-- Loads definitions, registers them, collects sources and lists them. -/
def work (disk : Disk) (preferences : Preferences) (a : Arguments) (before : List Message) :
    Progress :=
  match definitions disk a with
  | .error e => .ended (.line s!"Error: {e.message}" :: before)
  | .ok d =>
    let made := Dump.createEngine preferences d
    let messages := Session.logged made.events before
    match made.value with
    | .error e => .ended (.line s!"Error: {e.message}" :: messages)
    | .ok engine =>
      let messages := .event (registeredEvent d) :: messages
      match disk.collect a.recursive a.paths with
      | [] => .ended (.line "No C/C++ sources found" :: messages)
      | sources =>
        let headed := sources.length > 1 && a.options.format = .text
        .complete
          (sources.foldl (Session.dump disk a.options headed preferences.logging.fileContext)
            ⟨engine, .unbounded, messages, 0⟩)
          sources.length

structure Outcome where
  exit : Nat
  stdout : String
  stderr : String

def completedEvent (files failed milliseconds : Nat) : Event :=
  (Event.success .filteringComplete "Dump completed").withAll
    [("files", toString files), ("failed", toString failed),
     ("duration_ms", toString milliseconds)]

/-- The output of a run that took some milliseconds. -/
def conclude (log : Log) (milliseconds : Nat) : Progress → Outcome
  | .ended messages => ⟨1, "", log.text messages⟩
  | .complete s files =>
    ⟨if s.failed = 0 then 0 else 1, s.sink.text,
     log.text (.event (completedEvent files s.failed milliseconds) :: s.messages)⟩

/-- The variable with the filter of log lines. -/
def filterVariable : String := "RUST_LOG"

/-- The log of a run, and the messages of setting it up. Without a filter in the environment the
level of the arguments stands for one. -/
def startLog (environment : NameTable String) (a : Arguments) (clock : Clock) :
    Log × List Message :=
  let ordinary : LogFilter :=
    ⟨[⟨none, match a.level with
      | .error => .error
      | .warning => .warning
      | .info => .info
      | .debug => .debug⟩], none⟩
  match a.logOutput with
  | .facade =>
    match environment.get? filterVariable with
    | none => (⟨.facade, a.level, ordinary, clock⟩, [])
    | some spec =>
      let r := LogFilter.parse spec
      (⟨.facade, a.level, r.1, clock⟩,
       (r.2.map fun problem => Message.line s!"warning: {problem}, ignoring it").reverse)
  | output => (⟨output, a.level, ordinary, clock⟩, [.event SharedLog.startedEvent])

def stopped : Stop → Outcome
  | .refused => ⟨2, "", refusedText⟩
  | .version => ⟨0, versionText, ""⟩
  | .help long => ⟨0, if long then longHelp else shortHelp, ""⟩

/-- The whole run at a moment at which the clock stands still. -/
def run (disk : Disk) (environment : NameTable String) (clock : Clock) (args : List String) :
    Outcome :=
  match Arguments.parse args with
  | .error stop => stopped stop
  | .ok a =>
    let (log, before) := startLog environment a clock
    conclude log 0 (work disk (.ofEnvironment environment) a before)

end SourceOutline.CommandLine
