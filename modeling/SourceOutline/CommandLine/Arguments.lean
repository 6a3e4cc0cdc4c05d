import SourceOutline.Dump

/-! The arguments of the command line. -/
namespace SourceOutline.CommandLine

/-- Where log lines are made: by the levels of a filter, as plain lines, or as JSON texts. -/
inductive LogOutput
  | facade | console | json
  deriving DecidableEq, Repr

structure Arguments where
  paths : List String
  defines : List String
  calls : List String
  definitions : Option String
  options : DumpOptions
  recursive : Bool
  verbosity : Nat
  logOutput : LogOutput
  deriving DecidableEq, Repr

/-- What ends the reading of arguments early. -/
inductive Stop
  | refused
  | version
  | help (long : Bool)
  deriving DecidableEq, Repr

/-- Options that need a value. -/
inductive Setting
  | define | call | definitions | mode | format | logOutput
  deriving DecidableEq, Repr

/-- Options that stand alone. -/
inductive Switch
  | trivia | noRecursive | verbose | version | help
  deriving DecidableEq, Repr

inductive Named
  | setting (s : Setting)
  | switch (s : Switch)
  deriving DecidableEq, Repr

namespace Named

def ofLong? : String → Option Named
  | "define" => some (setting .define)
  | "macro" => some (setting .call)
  | "definitions" => some (setting .definitions)
  | "mode" => some (setting .mode)
  | "format" => some (setting .format)
  | "log-output" => some (setting .logOutput)
  | "trivia" => some (switch .trivia)
  | "no-recursive" => some (switch .noRecursive)
  | "verbose" => some (switch .verbose)
  | "version" => some (switch .version)
  | "help" => some (switch .help)
  | _ => none

def ofShort? : Char → Option Named
  | 'D' => some (setting .define)
  | 'M' => some (setting .call)
  | 'v' => some (switch .verbose)
  | 'V' => some (switch .version)
  | 'h' => some (switch .help)
  | _ => none

end Named

def modeOf? : String → Option DumpMode
  | "tokens" => some .tokens
  | "outline" => some .outline
  | _ => none

def formatOf? : String → Option DumpFormat
  | "text" => some .text
  | "json" => some .json
  | _ => none

def LogOutput.ofName? : String → Option LogOutput
  | "facade" => some .facade
  | "console" => some .console
  | "json" => some .json
  | _ => none

/-- Arguments while they are being read. Lists stand last one first. -/
structure Draft where
  paths : List String
  defines : List String
  calls : List String
  definitions : Option String
  mode : Option DumpMode
  format : Option DumpFormat
  logOutput : Option LogOutput
  trivia : Bool
  noRecursive : Bool
  verbosity : Nat

namespace Draft

def empty : Draft := ⟨[], [], [], none, none, none, none, false, false, 0⟩

/-- A value for a field that may be set once. -/
def once {α : Type} (field value : Option α) : Except Stop (Option α) :=
  match field, value with
  | none, some v => .ok (some v)
  | _, _ => .error .refused

/-- Paths are not empty. -/
def pathOf? (value : String) : Option String := if value.isEmpty then none else some value

def addPath (d : Draft) (value : String) : Except Stop Draft :=
  match pathOf? value with
  | some path => .ok { d with paths := path :: d.paths }
  | none => .error .refused

def set (d : Draft) (value : String) : Setting → Except Stop Draft
  | .define => .ok { d with defines := value :: d.defines }
  | .call => .ok { d with calls := value :: d.calls }
  | .definitions => (once d.definitions (pathOf? value)).map fun v => { d with definitions := v }
  | .mode => (once d.mode (modeOf? value)).map fun v => { d with mode := v }
  | .format => (once d.format (formatOf? value)).map fun v => { d with format := v }
  | .logOutput =>
    (once d.logOutput (LogOutput.ofName? value)).map fun v => { d with logOutput := v }

def turn (d : Draft) (long : Bool) : Switch → Except Stop Draft
  | .trivia => if d.trivia then .error .refused else .ok { d with trivia := true }
  | .noRecursive => if d.noRecursive then .error .refused else .ok { d with noRecursive := true }
  | .verbose => .ok { d with verbosity := d.verbosity + 1 }
  | .version => .error .version
  | .help => .error (.help long)

/-- Reads letters behind one dash. The first that needs a value takes the rest for it, after an
equals sign if there is one; with no rest it waits for the next argument. -/
def letters (d : Draft) : List Char → Except Stop (Draft × Option Setting)
  | [] => .ok (d, none)
  | c :: cs =>
    match Named.ofShort? c with
    | none => .error .refused
    | some (.switch s) =>
      match d.turn false s with
      | .ok d => letters d cs
      | .error stop => .error stop
    | some (.setting s) =>
      match cs with
      | [] => .ok (d, some s)
      | '=' :: value => (d.set (String.ofList value) s).map fun d => (d, none)
      | value => (d.set (String.ofList value) s).map fun d => (d, none)

/-- Reads what stands behind two dashes: a name, and a value after an equals sign. -/
def word (d : Draft) (cs : List Char) : Except Stop (Draft × Option Setting) :=
  let name := String.ofList (cs.takeWhile (· != '='))
  let value : Option String := match cs.dropWhile (· != '=') with
    | [] => none
    | _ :: value => some (String.ofList value)
  match Named.ofLong? name, value with
  | none, _ => .error .refused
  | some (.setting s), some value => (d.set value s).map fun d => (d, none)
  | some (.setting s), none => .ok (d, some s)
  | some (.switch _), some _ => .error .refused
  | some (.switch s), none => (d.turn true s).map fun d => (d, none)

/-- Paths to the end. -/
def restPaths (d : Draft) : List String → Except Stop Draft
  | [] => .ok d
  | arg :: args =>
    match d.addPath arg with
    | .ok d => restPaths d args
    | .error stop => .error stop

/-- A dash alone is an ordinary value. -/
def looksNamed (arg : String) : Bool := arg.startsWith "-" && arg != "-"

/-- Reads one argument that is no value of another. -/
def argument (d : Draft) (arg : String) : Except Stop (Draft × Option Setting) :=
  match arg.toList with
  | '-' :: '-' :: cs => d.word cs
  | '-' :: c :: cs => d.letters (c :: cs)
  | _ => (d.addPath arg).map fun d => (d, none)

/-- Reads arguments from left to right; `waiting` is an option that the next one is the value of.
Two dashes alone end the options. -/
def read (d : Draft) (waiting : Option Setting) : List String → Except Stop Draft
  | [] =>
    match waiting with
    | none => .ok d
    | some _ => .error .refused
  | arg :: args =>
    match waiting with
    | some s =>
      if looksNamed arg then .error .refused
      else
        match d.set arg s with
        | .ok d => read d none args
        | .error stop => .error stop
    | none =>
      if arg = "--" then d.restPaths args
      else
        match d.argument arg with
        | .ok (d, waiting) => read d waiting args
        | .error stop => .error stop

/-- There is at least one path. -/
def finish (d : Draft) : Except Stop Arguments :=
  if d.paths.isEmpty then .error .refused
  else .ok
    { paths := d.paths.reverse
      defines := d.defines.reverse
      calls := d.calls.reverse
      definitions := d.definitions
      options := ⟨d.mode.getD .tokens, d.format.getD .text, d.trivia⟩
      recursive := !d.noRecursive
      verbosity := d.verbosity
      logOutput := d.logOutput.getD .facade }

end Draft

namespace Arguments

def parse (args : List String) : Except Stop Arguments :=
  match Draft.empty.read none args with
  | .ok d => d.finish
  | .error stop => .error stop

/-- The least grave level that is logged. -/
def level (a : Arguments) : Level :=
  match a.verbosity with
  | 0 => .warning
  | 1 => .info
  | _ => .debug

end Arguments
end SourceOutline.CommandLine
