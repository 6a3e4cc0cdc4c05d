import SourceOutline.Outline.Entry
import SourceOutline.Scope.Tree

/-! The state of an outline that is being built. -/
namespace SourceOutline

/-- What a closing brace ends: a plain block, or a scope around which `saved` was current. -/
inductive Frame
  | plain
  | scope (saved : ScopeId)
  deriving DecidableEq, Repr

/-- The open braces, innermost first, and their number. -/
structure Frames where
  list : List Frame
  count : Nat
  count_eq : count = list.length

namespace Frames

def empty : Frames := ⟨[], 0, rfl⟩

def push (f : Frames) (frame : Frame) : Frames :=
  ⟨frame :: f.list, f.count + 1, by simp [f.count_eq]⟩

/-- The innermost brace and those around it. -/
def pop? (f : Frames) : Option (Frame × Frames) :=
  match h : f.list with
  | [] => none
  | frame :: rest => some (frame, ⟨rest, f.count - 1, by simp [f.count_eq, h]⟩)

end Frames

/-- An outline so far. Entries and events stand last one first. -/
structure Builder where
  tree : ScopeTree
  current : ScopeId
  frames : Frames
  entries : List Entry
  journal : List Event

/-- An error that ends the work, and the events up to it, last one first. -/
structure Halted where
  error : ScopeError
  journal : List Event

namespace Builder

def start : Builder := ⟨.start, ScopeTree.root, .empty, [], []⟩

/-- Takes note of events. -/
def log (b : Builder) (events : List Event) : Builder :=
  { b with journal := events.reverse ++ b.journal }

/-- Goes on with a result of the tree, or ends with its error, met while working on `name`. -/
def lift {α : Type} (b : Builder) (name : String) (r : Except ScopeError α) : Except Halted α :=
  match r with
  | .ok a => .ok a
  | .error e => .error ⟨e, (b.log (e.events name)).journal⟩

def record (b : Builder) (entry : Entry) : Builder :=
  { b.log [entry.event] with entries := entry :: b.entries }

def openBrace (b : Builder) : Builder := { b with frames := b.frames.push .plain }

/-- Goes back to the scope around a closed one. A brace too many is reported. -/
def closeBrace (b : Builder) (t : Token) : Builder :=
  match b.frames.pop? with
  | some (.scope saved, frames) => { b with current := saved, frames := frames }
  | some (.plain, frames) => { b with frames := frames }
  | none =>
    b.log [(Event.warning "Unmatched '\x7d'").withContext "line" (toString t.beginLine)]

/-- A scope that was entered, and whether one of its name was there before. -/
structure Entered where
  builder : Builder
  scope : ScopeId
  reopened : Bool

/-- Opens a scope inside `parent` that takes over all that an earlier scope of its name has. -/
def enter (b : Builder) (parent : ScopeId) (name : String) : Except Halted Entered := do
  let prior ← b.lift name (b.tree.child parent name)
  let (tree, scope) ← b.lift name (b.tree.openScope parent name)
  let b := b.log (tree.openedEvents scope)
  let tree ← match prior with
    | some old => b.lift name (tree.extend scope old)
    | none => pure tree
  let tree ← b.lift name (tree.declareScope parent name scope)
  return ⟨{ b with tree := tree }, scope, prior.isSome⟩

/-- A path as it is shown: without the separator at its end, and with a word for a missing name. -/
def displayed (path : String) : String :=
  let cs := path.toList
  let trimmed := (QualifiedName.beforeSeparator? cs).getD cs
  if trimmed.isEmpty || (QualifiedName.beforeSeparator? trimmed).isSome then
    String.ofList trimmed ++ "(anonymous)"
  else String.ofList trimmed

/-- Lists a scope under its path. -/
def recordScope (b : Builder) (kind : EntryKind) (scope : ScopeId) (line : Nat) :
    Except Halted Builder := do
  let path ← b.lift "" (b.tree.path scope)
  return b.record ⟨kind, displayed path, line⟩

/-- Declares a type in the current scope. A second declaration is only reported. -/
def declareType (b : Builder) (name : String) : Except Halted Builder :=
  match b.tree.declare b.current name with
  | .ok tree => .ok { b with tree := tree }
  | .error e =>
    if e.code.halts then .error ⟨e, (b.log (e.events name)).journal⟩
    else
      .ok (b.log (e.events name ++ [(Event.warning "Type redeclared").withAll
        [("name", name), ("code", Code.duplicateTypeName.text)]]))

/-- Declares a type and lists it. -/
def recordType (b : Builder) (kind : EntryKind) (name : String) (line : Nat) :
    Except Halted Builder := do
  let b ← b.declareType name
  let full ← b.lift name (b.tree.resolve b.current name)
  return b.record ⟨kind, full, line⟩

end Builder
end SourceOutline
