import SourceOutline.Diagnostic.Event
import SourceOutline.Text.Padded
import SourceOutline.Token

/-! The declarations that an outline lists. -/
namespace SourceOutline

inductive EntryKind
  | namespaceDef | classDef | structDef | unionDef | enumDef | typedef | typeAlias
  deriving DecidableEq, Repr

namespace EntryKind

/-- The keyword that introduces the declaration. -/
def keyword : EntryKind → String
  | namespaceDef => "namespace"
  | classDef => "class"
  | structDef => "struct"
  | unionDef => "union"
  | enumDef => "enum"
  | typedef => "typedef"
  | typeAlias => "using"

/-- The name used in JSON texts. -/
def name : EntryKind → String
  | typeAlias => "alias"
  | k => k.keyword

/-- The kind of class that a keyword opens. -/
def ofClassKey? (t : Token) : Option EntryKind :=
  if t.is .keyword then
    if t.image = "class" then some .classDef
    else if t.image = "struct" then some .structDef
    else if t.image = "union" then some .unionDef
    else none
  else none

end EntryKind

/-- A declared name with its full path, and the line of its keyword. -/
structure Entry where
  kind : EntryKind
  name : String
  line : Nat
  deriving DecidableEq, Repr

namespace Entry

def text (e : Entry) : String :=
  Text.padLeft 5 (toString e.line) ++ "  " ++ Text.padRight 9 e.kind.keyword ++ " " ++ e.name

def toJson (e : Entry) : Json :=
  .record [("kind", .ofString e.kind.name), ("name", .ofString e.name), ("line", .ofNat e.line)]

def event (e : Entry) : Event :=
  (Event.debug "Outline entry").withAll [("kind", e.kind.keyword), ("name", e.name)]

end Entry
end SourceOutline
