import SourceOutline.Regex.Expression

/-!
Search in a text. A set of places is a list with one truth value for each place of the text, from
before its first character to behind its last; an expression takes the places where it may begin to
those where it may end.
-/
namespace SourceOutline.Regex

abbrev Places := List Bool

/-- The characters of a text, and those on both sides of each of its places. -/
structure Subject where
  chars : List Char
  gaps : List (Option Char × Option Char)

namespace Subject

def gapsFrom (before : Option Char) : List Char → List (Option Char × Option Char)
  | [] => [(before, none)]
  | c :: cs => (before, some c) :: gapsFrom (some c) cs

def ofText (s : String) : Subject := ⟨s.toList, gapsFrom none s.toList⟩

def everywhere (s : Subject) : Places := s.gaps.map fun _ => true

end Subject

namespace Places

def union (a b : Places) : Places := List.zipWith (· || ·) a b

/-- One character further, where that character is in the set. -/
def past (set : CharSet) (cs : List Char) (a : Places) : Places :=
  false :: List.zipWith (fun here c => here && set.contains c) a cs

/-- As many steps as asked for; places that no step changes need no more. -/
def steps (step : Places → Places) : Nat → Places → Places
  | 0, a => a
  | n + 1, a =>
    let b := step a
    if b = a || !b.any id then b else steps step n b

/-- All places reached in at most so many steps. -/
def within (step : Places → Places) : Nat → Places → Places
  | 0, a => a
  | n + 1, a =>
    let b := union a (step a)
    if b = a then a else within step n b

end Places

namespace Look

def isWord (c : Option Char) : Bool := c.any fun c => c.isAlphanum || c = '_'

def holds : Look → Option Char × Option Char → Bool
  | startText, (before, _) => before.isNone
  | endText, (_, after) => after.isNone
  | startLine, (before, _) => before.isNone || before = some '\n'
  | endLine, (_, after) => after.isNone || after = some '\n'
  | startLineCrlf, (before, after) =>
    before.isNone || before = some '\n' || (before = some '\r' && after ≠ some '\n')
  | endLineCrlf, (before, after) =>
    after.isNone || after = some '\r' || (after = some '\n' && before ≠ some '\r')
  | boundary, (before, after) => isWord before != isWord after
  | notBoundary, (before, after) => isWord before == isWord after
  | wordStart, (before, after) => !isWord before && isWord after
  | wordEnd, (before, after) => isWord before && !isWord after
  | wordStartHalf, (before, _) => !isWord before
  | wordEndHalf, (_, after) => !isWord after
  | wideWord, _ => false

end Look

namespace Expression

mutual

/-- The places where `e` may end, if it begins at one of `a`. -/
def ends (s : Subject) (e : Expression) (a : Places) : Places :=
  match e with
  | .empty => a
  | .chars set => a.past set s.chars
  | .look condition => List.zipWith (fun here gap => here && condition.holds gap) a s.gaps
  | .repetition least most inner =>
    let step := fun b => ends s inner b
    let first := Places.steps step least a
    Places.within step ((most.map (· - least)).getD a.length) first
  | .group inner => ends s inner a
  | .alternation parts => endsOfAny s parts a
  | .sequence parts => endsOfAll s parts a

def endsOfAny (s : Subject) (es : List Expression) (a : Places) : Places :=
  match es with
  | [] => a.map fun _ => false
  | e :: es => Places.union (ends s e a) (endsOfAny s es a)

def endsOfAll (s : Subject) (es : List Expression) (a : Places) : Places :=
  match es with
  | [] => a
  | e :: es => endsOfAll s es (ends s e a)

end

/-- Whether an expression is found somewhere in a text. -/
def isIn (e : Expression) (text : String) : Bool :=
  let s := Subject.ofText text
  (ends s e s.everywhere).any id

end Expression
end SourceOutline.Regex
