import SourceOutline.NameTable
import SourceOutline.QualifiedName
import SourceOutline.Scope.Error
import SourceOutline.Text.Quoted

/-! Nested scopes and the look-up of qualified names in them.
Scopes are only ever added, so a number keeps its meaning. -/
namespace SourceOutline

structure Scope where
  name : String
  parent : Option ScopeId
  depth : Nat
  types : NameSet
  children : NameTable ScopeId

/-- The scopes in the order of opening. The first one is the root. -/
structure ScopeTree where
  scopes : Array Scope

namespace ScopeTree

def root : ScopeId := 0

/-- The tree of the root alone. -/
def start : ScopeTree := ⟨#[⟨"", none, 0, .empty, .empty⟩]⟩

def size (t : ScopeTree) : Nat := t.scopes.size

def contains (t : ScopeTree) (id : ScopeId) : Bool := id < t.size

def get (t : ScopeTree) (id : ScopeId) : Except ScopeError Scope :=
  match t.scopes[id]? with
  | some s => .ok s
  | none => .error (.foreign id t.size)

def checkName (name : String) : Except ScopeError Unit :=
  if QualifiedName.isQualified name then .error (.invalidName name "name must not contain '::'")
  else .ok ()

/-- The names of the scopes from the outermost one to `id`, in front of `inner`. A parent has a
smaller number than its children. -/
def namesFrom (t : ScopeTree) (id : ScopeId) (inner : List String) :
    Except ScopeError (List String) :=
  match t.scopes[id]? with
  | none => .error (.foreign id t.size)
  | some s =>
    match s.parent with
    | none => .ok inner
    | some p => if p < id then namesFrom t p (s.name :: inner) else .ok inner
termination_by id

/-- Each name with a separator after it. -/
def join (names : List String) : String := names.foldl (fun path name => path ++ name ++ "::") ""

/-- The qualified path of a scope. That of the root is empty. -/
def path (t : ScopeTree) (id : ScopeId) : Except ScopeError String :=
  (t.namesFrom id []).map join

/-- The child named `name` of the scope, or of its nearest ancestor that has one. -/
def lookup (t : ScopeTree) (id : ScopeId) (name : String) : Except ScopeError (Option ScopeId) :=
  match t.scopes[id]? with
  | none => .error (.foreign id t.size)
  | some s =>
    match s.children.get? name with
    | some child => .ok (some child)
    | none =>
      match s.parent with
      | none => .ok none
      | some p => if p < id then lookup t p name else .ok none
termination_by id

/-- Looks up the segments of a name one after the other, each from the scope found last. -/
def findFrom (t : ScopeTree) (id : ScopeId) (cs : List Char) :
    Except ScopeError (Option ScopeId) :=
  match h : QualifiedName.cutFirst? cs with
  | none => t.lookup id (String.ofList cs)
  | some (front, back) =>
    match t.lookup id (String.ofList front) with
    | .error e => .error e
    | .ok none => .ok none
    | .ok (some found) =>
      have := QualifiedName.length_cutFirst?_lt h
      findFrom t found back
termination_by cs.length

/-- The scope that a possibly qualified name stands for, as seen from `id`. A separator in front
leads to the root. -/
def find (t : ScopeTree) (id : ScopeId) (name : String) : Except ScopeError (Option ScopeId) :=
  match QualifiedName.afterSeparator? name.toList with
  | some rest => t.findFrom root rest
  | none => t.findFrom id name.toList

/-- The full spelling of a name. -/
structure Resolution where
  text : String
  /-- Whether the qualifier of the name was found; if not, the name is kept as written. -/
  found : Bool

/-- The full spelling of a name as seen from `id`. -/
def resolution (t : ScopeTree) (id : ScopeId) (name : String) : Except ScopeError Resolution :=
  let kept (found : Bool) : Except ScopeError Resolution :=
    (t.path id).map fun path => ⟨path ++ name, found⟩
  match QualifiedName.cutLast? name.toList with
  | none => kept true
  | some (qualifier, last) => do
    let scope ← if qualifier.isEmpty then .ok (some root) else t.find id (String.ofList qualifier)
    match scope with
    | some scope => return ⟨(← t.path scope) ++ String.ofList last, true⟩
    | none => kept false

def resolve (t : ScopeTree) (id : ScopeId) (name : String) : Except ScopeError String :=
  (t.resolution id name).map (·.text)

/-- A constructor is named like its class. -/
def isConstructor (t : ScopeTree) (id : ScopeId) (name : String) : Except ScopeError Bool :=
  (t.get id).map (·.name == name)

/-- The enclosing scope; the root closes to itself. -/
def close (t : ScopeTree) (id : ScopeId) : Except ScopeError ScopeId :=
  (t.get id).map fun s => s.parent.getD id

def hasType (t : ScopeTree) (id : ScopeId) (name : String) : Except ScopeError Bool :=
  (t.get id).map (·.types.contains name)

/-- The child registered in the scope itself. -/
def child (t : ScopeTree) (id : ScopeId) (name : String) : Except ScopeError (Option ScopeId) :=
  (t.get id).map (·.children.get? name)

/-- Opens a scope inside `parent`. It is no child of its parent yet. -/
def openScope (t : ScopeTree) (parent : ScopeId) (name : String) :
    Except ScopeError (ScopeTree × ScopeId) := do
  checkName name
  let outer ← t.get parent
  if outer.depth + 1 ≤ ScopeError.depthLimit then
    return (⟨t.scopes.push ⟨name, some parent, outer.depth + 1, .empty, .empty⟩⟩, t.size)
  else .error (.nestingTooDeep (outer.depth + 1))

/-- Changes one scope and no other. -/
def modify (t : ScopeTree) (id : ScopeId) (f : Scope → Scope) : ScopeTree :=
  ⟨t.scopes.modify id f⟩

/-- Declares a type. The same name cannot be declared twice in one scope. -/
def declare (t : ScopeTree) (id : ScopeId) (name : String) : Except ScopeError ScopeTree := do
  checkName name
  let s ← t.get id
  if s.types.contains name then .error (.duplicateType name (← t.path id))
  else return t.modify id fun s => { s with types := s.types.insert name () }

/-- Declares a type that introduces the scope `child`, in place of an earlier one. -/
def declareScope (t : ScopeTree) (id : ScopeId) (name : String) (child : ScopeId) :
    Except ScopeError ScopeTree := do
  checkName name
  let _ ← t.get id
  return t.modify id fun s =>
    { s with types := s.types.insert name (), children := s.children.insert name child }

/-- Copies the types and children of `other`, which win. -/
def extend (t : ScopeTree) (id other : ScopeId) : Except ScopeError ScopeTree :=
  if id = other then .ok t
  else do
    let source ← t.get other
    let _ ← t.get id
    return t.modify id fun s =>
      { s with types := s.types.merge source.types, children := s.children.merge source.children }

/-- What is shown of one scope. -/
structure View where
  id : ScopeId
  name : String
  parent : Option ScopeId
  path : String

def view (t : ScopeTree) (id : ScopeId) : Except ScopeError View := do
  let s ← t.get id
  return ⟨id, s.name, s.parent, ← t.path id⟩

/-- Number and path, spelled out. -/
def View.text (v : View) : String :=
  "ScopeRef \x7b id: ScopeId(" ++ toString v.id ++ "), path: " ++ Text.quoted v.path ++ " \x7d"

/-- The report of a scope that was opened. -/
def openedEvents (t : ScopeTree) (id : ScopeId) : List Event :=
  match t.scopes[id]? with
  | none => []
  | some s =>
    let parent := match t.path (s.parent.getD root) with
      | .ok path => path
      | .error _ => ""
    [(Event.debug "Scope opened").withAll
      [("name", s.name), ("parent", parent), ("depth", toString s.depth)]]

/-- The report of a name that was kept as written. -/
def resolutionEvents (t : ScopeTree) (id : ScopeId) (name : String) (r : Resolution) : List Event :=
  if r.found then []
  else
    let path := match t.path id with
      | .ok path => path
      | .error _ => ""
    [(Event.debug "Qualifier not found, keeping name as written").withAll
      [("name", name), ("scope", path)]]

end ScopeTree
end SourceOutline
