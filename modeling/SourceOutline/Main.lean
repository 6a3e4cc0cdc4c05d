import SourceOutline.CommandLine.Session
import Std.Time.DateTime.Timestamp

/-! The program: reads what a run needs, and prints what it gives. -/
namespace SourceOutline.CommandLine

def readEnvironment : IO (NameTable String) :=
  (filterVariable :: Preferences.variableNames).foldlM (fun environment name => do
    match ← IO.getEnv name with
    | some value => return environment.insert name value
    | none => return environment) .empty

/-- What is at a path. Directories come without their entries. -/
def readNode (path : String) : IO (Except SystemError Node) := do
  if let some e := Directory.fault? path then return .error e
  if (Path.parts path).any (·.utf8ByteSize > Directory.nameLimit) then return .error .nameTooLong
  match ← (IO.FS.readBinFile path).toBaseIO with
  | .ok data => return .ok (.file (.bytes data))
  | .error (.noFileOrDirectory ..) => return .error .notFound
  | .error (.inappropriateType _ code _) =>
    return if code = 21 then .ok (.directory []) else .error .notDirectory
  | .error e => return .error (.other (toString e))

/-- The disk as far as a run can see it. -/
def readDisk (paths : List String) : IO Disk := do
  let table ← paths.foldlM (fun (table : NameTable (Except SystemError Node)) path => do
    return table.insert path (← readNode path)) .empty
  return fun path => (table.get? path).getD (.error .notFound)

def perform (args : List String) : IO Outcome := do
  match Arguments.parse args with
  | .error stop => return stopped stop
  | .ok a =>
    let start ← IO.monoMsNow
    let environment ← readEnvironment
    let now ← Std.Time.Timestamp.now
    let (log, before) := startLog environment a (.ofSeconds now.toSecondsSinceUnixEpoch.val.toNat)
    let disk ← readDisk (a.definitions.toList ++ a.paths)
    let progress := work disk (.ofEnvironment environment) a before
    match progress with
    | .ended _ => return conclude log 0 progress
    | .complete .. => return conclude log ((← IO.monoMsNow) - start) progress

end SourceOutline.CommandLine

def main (args : List String) : IO UInt32 := do
  let outcome ← SourceOutline.CommandLine.perform args
  IO.print outcome.stdout
  IO.eprint outcome.stderr
  return UInt32.ofNat outcome.exit
