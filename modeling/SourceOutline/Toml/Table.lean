import SourceOutline.Toml.Number

/-! The tables of a TOML document while it is being read. -/
namespace SourceOutline.Toml

/-- How a table came to be: by a header of its own, as a parent in a header, or by a key with
points. -/
inductive Origin
  | header | parent | dotted
  deriving DecidableEq, Repr

/-- What a key can stand for. Dates and times have their written form, and values of the remaining
kinds are not told apart. -/
inductive Node
  | string (text : String)
  | moment (text : String)
  | other
  | inline (fields : List (String × Node))
  | table (origin : Origin) (fields : List (String × Node))
  /-- An array of tables, the last one first. -/
  | tables (elements : List (List (String × Node)))

abbrev Fields := List (String × Node)

namespace Fields

def get? (fields : Fields) (name : String) : Option Node :=
  (fields.find? (·.1 == name)).map (·.2)

def erase (fields : Fields) (name : String) : Fields := fields.filter (·.1 != name)

def set (fields : Fields) (name : String) (node : Node) : Fields :=
  (name, node) :: fields.erase name

/-- Goes from a table along `path`, making tables on the way, and changes the table at its end.
A key with points enters no table that has a header; a header enters the last table of an array. -/
def change (fields : Fields) (origin : Origin) (path : List String) (makes : Origin)
    (f : Origin → Fields → Option Fields) : Option Fields :=
  match path with
  | [] => f origin fields
  | name :: path =>
    match fields.get? name with
    | none =>
      (change [] makes path makes f).map fun inner => (name, .table makes inner) :: fields
    | some (.table found inner) =>
      if makes = .dotted && found = .header then none
      else (change inner found path makes f).map fun inner => fields.set name (.table found inner)
    | some (.tables (inner :: older)) =>
      (change inner .header path makes f).map fun inner => fields.set name (.tables (inner :: older))
    | some _ => none

/-- Puts a value under a key that may have points. A key has points exactly if it ends in a table
that such a key made. -/
def insert (fields : Fields) (path : List String) (name : String) (node : Node) : Option Fields :=
  fields.change .header path .dotted fun origin inner =>
    if (origin == .dotted) == path.isEmpty then none
    else if (inner.get? name).isSome then none
    else some ((name, node) :: inner)

end Fields

mutual

/-- The value at the front of a text. The first argument bounds the search and the length of the
text is always enough; `depth` counts the values around this one. -/
def readValue : Nat → Nat → List Char → Option (Node × List Char)
  | 0, _, _ => none
  | fuel + 1, depth, cs =>
    match cs with
    | '\x22' :: _ => (string? cs).map fun r => (.string r.1, r.2)
    | '\x27' :: _ => (string? cs).map fun r => (.string r.1, r.2)
    | '[' :: rest =>
      if depth + 1 < depthLimit then
        (readItems fuel (depth + 1) (skipFiller false rest)).map fun r => (.other, r)
      else none
    | '\x7b' :: rest =>
      if depth + 1 < depthLimit then
        match skipSpace rest with
        | '\x7d' :: after => some (.inline [], after)
        | _ => readFields fuel (depth + 1) [] rest
      else none
    | 't' :: 'r' :: 'u' :: 'e' :: rest => some (.other, rest)
    | 'f' :: 'a' :: 'l' :: 's' :: 'e' :: rest => some (.other, rest)
    | _ =>
      (moment? cs).map fun r =>
        match r.1 with
        | some text => (.moment text, r.2)
        | none => (.other, r.2)

/-- The items of an array up to its closing bracket. -/
def readItems : Nat → Nat → List Char → Option (List Char)
  | 0, _, _ => none
  | fuel + 1, depth, cs =>
    match cs with
    | ']' :: rest => some rest
    | _ =>
      match readValue fuel depth cs with
      | none => none
      | some (_, rest) =>
        match skipFiller false rest with
        | ',' :: more => readItems fuel depth (skipFiller false more)
        | ']' :: after => some after
        | _ => none

/-- The fields of a table on one line up to its closing brace. -/
def readFields : Nat → Nat → Fields → List Char → Option (Node × List Char)
  | 0, _, _, _ => none
  | fuel + 1, depth, fields, cs =>
    match key? cs with
    | none => none
    | some (parts, '=' :: rest) =>
      match readValue fuel depth (skipSpace rest) with
      | none => none
      | some (node, rest) =>
        match fields.insert parts.dropLast (parts.getLastD "") node with
        | none => none
        | some fields =>
          match skipSpace rest with
          | ',' :: more => readFields fuel depth fields more
          | '\x7d' :: after => some (.inline fields, after)
          | _ => none
    | some _ => none

end

end SourceOutline.Toml
