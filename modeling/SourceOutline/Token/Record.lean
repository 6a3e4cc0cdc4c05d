import SourceOutline.Json.Reader
import SourceOutline.Token

/-! Tokens as JSON values. -/
namespace SourceOutline

namespace Json

/-- The number of fields of one name. -/
def countField (name : String) (fields : List (Option String × Json)) : Nat :=
  fields.countP (·.1 == some name)

def findField (name : String) (fields : List (Option String × Json)) : Option Json :=
  (fields.find? (·.1 == some name)).map (·.2)

/-- The values of named fields. An array gives them by place; an object gives each at most once,
among others that do not matter. -/
def fields? (names : List String) : Json → Option (List (Option Json))
  | array items =>
    if items.length ≤ names.length then
      some (items.map some ++ List.replicate (names.length - items.length) none)
    else none
  | object fields =>
    if fields.all (·.1.isSome) && names.all (countField · fields ≤ 1) then
      some (names.map (findField · fields))
    else none
  | _ => none

/-- A name stands alone, or is the only key of an object over nothing. -/
def name? : Json → Option String
  | string text => text
  | object [(key, null)] => key
  | _ => none

/-- A natural number below a bound. -/
def natBelow? (bound : Nat) : Json → Option Nat
  | number (some n) => if n < bound then some n else none
  | _ => none

def text? : Json → Option String
  | string text => text
  | _ => none

end Json

namespace Position

def toJson (p : Position) : Json :=
  .record [("offset", .ofNat p.offset), ("line", .ofNat p.line), ("column", .ofNat p.column)]

/-- Offsets have 64 bits, lines and columns 32. -/
def ofJson? (j : Json) : Option Position :=
  match j.fields? ["offset", "line", "column"] with
  | some [some offset, some line, some column] => do
    return ⟨← offset.natBelow? (1 <<< 64), ← line.natBelow? (1 <<< 32), ← column.natBelow? (1 <<< 32)⟩
  | _ => none

end Position

namespace Span

def toJson (s : Span) : Json := .record [("start", s.start.toJson), ("end", s.stop.toJson)]

def ofJson? (j : Json) : Option Span :=
  match j.fields? ["start", "end"] with
  | some [some start, some stop] => do
    return ⟨← Position.ofJson? start, ← Position.ofJson? stop⟩
  | _ => none

end Span

namespace Trivia

def toJson (t : Trivia) : Json :=
  .record [("kind", .ofString t.kind.name), ("image", .ofString t.image), ("span", t.span.toJson)]

def ofJson? (j : Json) : Option Trivia :=
  match j.fields? ["kind", "image", "span"] with
  | some [some kind, some image, some span] => do
    return ⟨← kind.name?.bind TriviaKind.ofName?, ← image.text?, ← Span.ofJson? span⟩
  | _ => none

end Trivia

namespace Token

/-- The trivia field is left out when there is none. -/
def toJson (t : Token) : Json :=
  .record <|
    [("kind", .ofString t.kind.name), ("image", .ofString t.image), ("span", t.span.toJson)]
    ++ if t.trivia.isEmpty then [] else [("trivia", .array (t.trivia.map Trivia.toJson))]

def triviaOfJson? : Option Json → Option (List Trivia)
  | none => some []
  | some (.array items) => items.mapM Trivia.ofJson?
  | some _ => none

def ofJson? (j : Json) : Option Token :=
  match j.fields? ["kind", "image", "span", "trivia"] with
  | some [some kind, some image, some span, trivia] => do
    return ⟨← kind.name?.bind TokenKind.ofName?, ← image.text?, ← Span.ofJson? span,
      ← triviaOfJson? trivia⟩
  | _ => none

end Token
end SourceOutline
