import SourceOutline.Toml.Table

/-! Whole TOML documents. -/
namespace SourceOutline.Toml

/-- What one line says. -/
inductive Statement
  | header (path : List String)
  | arrayHeader (path : List String)
  | entry (path : List String) (name : String) (node : Node)

/-- A key, an equals sign, a value and the end of the line. -/
def readEntry (cs : List Char) : Option (Statement × List Char) :=
  match key? cs with
  | some (parts, '=' :: rest) =>
    match readValue (rest.length + 1) 0 (skipSpace rest) with
    | none => none
    | some (node, rest) =>
      (lineEnd? rest).map fun rest => (.entry parts.dropLast (parts.getLastD "") node, rest)
  | _ => none

def readHeader (cs : List Char) : Option (Statement × List Char) :=
  match key? cs with
  | some (parts, ']' :: rest) => (lineEnd? rest).map fun rest => (.header parts, rest)
  | _ => none

def readArrayHeader (cs : List Char) : Option (Statement × List Char) :=
  match key? cs with
  | some (parts, ']' :: ']' :: rest) => (lineEnd? rest).map fun rest => (.arrayHeader parts, rest)
  | _ => none

/-- A line that says nothing, or a statement, and the text after it. -/
def readLine (cs : List Char) : Option (Option Statement × List Char) :=
  match cs with
  | '#' :: _ => (lineEnd? cs).map fun rest => (none, rest)
  | '[' :: '[' :: rest => (readArrayHeader rest).map fun r => (some r.1, r.2)
  | '[' :: rest => (readHeader rest).map fun r => (some r.1, r.2)
  | _ =>
    match newline? cs with
    | some rest => some (none, rest)
    | none => (readEntry cs).map fun r => (some r.1, r.2)

/-- The statements of a text, line by line. `found` holds those so far, last one first. -/
def statements : Nat → List Statement → List Char → Option (List Statement)
  | 0, _, _ => none
  | fuel + 1, found, cs =>
    match skipSpace cs with
    | [] => some found.reverse
    | cs =>
      match readLine cs with
      | none => none
      | some (none, rest) => statements fuel found rest
      | some (some s, rest) => statements fuel (s :: found) rest

/-- The tables closed so far, and the one that entries go to. -/
structure Builder where
  root : Fields
  path : List String
  isArray : Bool
  current : Fields

namespace Builder

def empty : Builder := ⟨[], [], false, []⟩

/-- Puts the current table at its place. -/
def close (b : Builder) : Option Fields :=
  match b.path.getLast? with
  | none => some b.current
  | some name =>
    b.root.change .header b.path.dropLast .parent fun _ fields =>
      if b.isArray then
        match fields.get? name with
        | some (.tables older) => some (fields.set name (.tables (b.current :: older)))
        | _ => none
      else some (fields.set name (.table .header b.current))

/-- Opens the table of a header. Only a table that so far was the parent of others may exist. -/
def openTable (root : Fields) (path : List String) : Option Builder :=
  let name := path.getLastD ""
  let found := (root.change .header path.dropLast .parent fun _ fields => some fields).bind
    fun root => some (root, (lookup root path.dropLast).bind (·.get? name))
  match found with
  | none => none
  | some (root, none) => some ⟨root, path, false, []⟩
  | some (root, some (.table .parent inner)) => some ⟨root, path, false, inner⟩
  | some _ => none
where
  /-- The fields that a header path leads to. -/
  lookup (fields : Fields) : List String → Option Fields
    | [] => some fields
    | name :: path =>
      match fields.get? name with
      | some (.table _ inner) => lookup inner path
      | some (.tables (inner :: _)) => lookup inner path
      | _ => none

/-- Opens one more table of an array of tables. -/
def openArray (root : Fields) (path : List String) : Option Builder :=
  let name := path.getLastD ""
  let opened := root.change .header path.dropLast .parent fun _ fields =>
    match fields.get? name with
    | none => some (fields.set name (.tables []))
    | some (.tables _) => some fields
    | some _ => none
  opened.map fun root => ⟨root, path, true, []⟩

def step (b : Builder) : Statement → Option Builder
  | .header path => b.close.bind (openTable · path)
  | .arrayHeader path => b.close.bind (openArray · path)
  | .entry path name node =>
    (b.current.insert path name node).map fun fields => { b with current := fields }

end Builder

/-- A byte order mark may stand in front. -/
def withoutMark : List Char → List Char
  | '\ufeff' :: cs => cs
  | cs => cs

/-- The tables of a document, or none when it breaks a rule. -/
def parse? (text : String) : Option Fields :=
  let cs := withoutMark text.toList
  match statements (cs.length + 1) [] cs with
  | none => none
  | some lines => (lines.foldlM Builder.step Builder.empty).bind Builder.close

end SourceOutline.Toml
