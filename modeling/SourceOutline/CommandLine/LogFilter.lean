import SourceOutline.Diagnostic.Event
import SourceOutline.Regex.Pattern
import SourceOutline.Text.Blank

/-! Filters of log lines: which levels pass for which targets, and a pattern that lines must
hold. -/
namespace SourceOutline.CommandLine

/-- How many levels pass, from none to all. -/
inductive Threshold
  | off | error | warning | info | debug | trace
  deriving DecidableEq, Repr

namespace Threshold

def ofName? (name : String) : Option Threshold :=
  match name.map Char.toLower with
  | "off" => some off
  | "error" => some error
  | "warn" => some warning
  | "info" => some info
  | "debug" => some debug
  | "trace" => some trace
  | _ => none

def admits : Threshold → Level → Bool
  | off, _ => false
  | error, l => l.passes .error
  | warning, l => l.passes .warning
  | info, l => l.passes .info
  | debug, l => l.passes .debug
  | trace, l => l.passes .debug

end Threshold

/-- A threshold for all targets whose names start in one way, or for all. -/
structure Directive where
  target : Option String
  threshold : Threshold
  deriving DecidableEq, Repr

structure LogFilter where
  directives : List Directive
  wanted : Option Regex.Expression

namespace LogFilter

def trimmed (s : String) : String := String.ofList (Text.trim s.toList)

/-- One directive: a level, a target, or a target and its level. -/
def readDirective (s : String) : Except String Directive :=
  match s.splitOn "=" with
  | [part] =>
    match Threshold.ofName? part with
    | some threshold => .ok ⟨none, threshold⟩
    | none => .ok ⟨some part, .trace⟩
  | [target, level] =>
    let level := trimmed level
    if level.isEmpty then .ok ⟨some target, .trace⟩
    else
      match Threshold.ofName? level with
      | some threshold => .ok ⟨some target, threshold⟩
      | none => .error s!"invalid logging spec '{level}'"
  | _ => .error s!"invalid logging spec '{s}'"

/-- A later directive for the same target takes the place of an earlier one. -/
def insert (directives : List Directive) (d : Directive) : List Directive :=
  if directives.any (·.target = d.target) then
    directives.map fun old => if old.target = d.target then d else old
  else directives ++ [d]

/-- The directives of a list divided by commas, and what was wrong with the others. -/
def readDirectives (text : String) : List Directive × List String :=
  let parts := ((text.splitOn ",").map trimmed).filter (!·.isEmpty)
  parts.foldl (fun acc part =>
    match readDirective part with
    | .ok d => (insert acc.1 d, acc.2)
    | .error problem => (acc.1, acc.2 ++ [problem])) ([], [])

/-- The filter of a text, and what was wrong with it. -/
def parse (spec : String) : LogFilter × List String :=
  match spec.splitOn "/" with
  | [levels] =>
    let r := readDirectives levels
    (⟨r.1, none⟩, r.2)
  | [levels, wanted] =>
    let r := readDirectives levels
    match Regex.Expression.parse wanted with
    | .ok e => (⟨r.1, some e⟩, r.2)
    | .error e => (⟨r.1, none⟩, r.2 ++ ["invalid regex filter - " ++ e.message])
  | _ => (⟨[], none⟩, [s!"invalid logging spec '{spec}' (too many '/'s)"])

def reach (d : Directive) : Nat := (d.target.map String.utf8ByteSize).getD 0

/-- Of two directives that cover a target the one with the longer name counts, and of two equally
long ones the later. -/
def closest (directives : List Directive) (target : String) : Option Directive :=
  (directives.filter fun d => (d.target.getD "").isPrefixOf target).foldl
    (fun best d =>
      match best with
      | none => some d
      | some b => if reach b ≤ reach d then some d else some b) none

/-- Without directives errors alone pass. -/
def threshold (f : LogFilter) (target : String) : Threshold :=
  if f.directives.isEmpty then .error
  else ((closest f.directives target).map Directive.threshold).getD .off

def passes (f : LogFilter) (target : String) (level : Level) (text : String) : Bool :=
  (f.threshold target).admits level
    && f.wanted.all (·.isIn text)

end LogFilter
end SourceOutline.CommandLine
