import SourceOutline.Diagnostic.Reported
import SourceOutline.Preferences

/-! The log that all parts of the library report to.
It is silent until it is started, and names the file that is being worked on. -/
namespace SourceOutline

structure SharedLog where
  started : Bool
  /-- Whether events carry the file. -/
  marks : Bool
  file : Option String

namespace SharedLog
variable {α : Type}

def ofPreferences (p : LogPreferences) : SharedLog := ⟨false, p.fileContext, none⟩

def startedEvent : Event := Event.success .loggingStarted "Global logging system initialized"

/-- A log is started once. -/
def start (log : SharedLog) : Reported (Except String Unit × SharedLog) :=
  if log.started then .silent (.error "Global logger already initialized", log)
  else ⟨(.ok (), { log with started := true }), [startedEvent]⟩

def enter (log : SharedLog) (path : String) : SharedLog := { log with file := some path }

def leave (log : SharedLog) : SharedLog := { log with file := none }

/-- The event as it comes from the file being worked on. -/
def mark (log : SharedLog) (e : Event) : Event := e.inFile (if log.marks then log.file else none)

/-- Reports an event with its context. -/
def report (log : SharedLog) (e : Event) (context : List (String × String)) : Reported Unit :=
  ⟨(), if log.started then [log.mark (e.withAll context)] else []⟩

/-- Reports an event as it is. -/
def reportBare (log : SharedLog) (e : Event) : Reported Unit :=
  ⟨(), if log.started then [e] else []⟩

/-- Works on a file. No file is worked on afterwards, whatever was before. -/
def within (log : SharedLog) (path : String) (work : SharedLog → Reported α) :
    Reported (α × SharedLog) :=
  let r := work (log.enter path)
  ⟨(r.value, log.leave), r.events⟩

end SharedLog
end SourceOutline
