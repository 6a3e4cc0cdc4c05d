import SourceOutline.Text.Units

/-! Names made of segments with separators between them. -/
namespace SourceOutline.QualifiedName
open Text

def separator : List Char := [':', ':']

/-- Whether a separator stands anywhere in the name. -/
def isQualified (name : String) : Bool := (cutAt? separator name.toList).isSome

/-- The first segment and the rest. -/
def cutFirst? (cs : List Char) : Option (List Char × List Char) := cutAt? separator cs

theorem length_cutFirst?_lt {cs front back : List Char} (h : cutFirst? cs = some (front, back)) :
    back.length < cs.length := by
  have hs := congrArg List.length (append_of_cutAt? h)
  simp only [List.length_append, separator, List.length_cons, List.length_nil] at hs
  omega

/-- The qualifier and the last segment. -/
def cutLast? (cs : List Char) : Option (List Char × List Char) :=
  (cutAt? separator cs.reverse).map fun s => (s.2.reverse, s.1.reverse)

/-- The name without a separator in front, if it has one. -/
def afterSeparator? : List Char → Option (List Char)
  | ':' :: ':' :: cs => some cs
  | _ => none

/-- The name without a separator at its end, if it has one. -/
def beforeSeparator? (cs : List Char) : Option (List Char) :=
  (afterSeparator? cs.reverse).map List.reverse

/-- The name without any separators in front. -/
def dropSeparators : List Char → List Char
  | ':' :: ':' :: cs => dropSeparators cs
  | cs => cs

/-- The segments of a name. `found` holds those in front, last one first. -/
def segmentsFrom (found : List (List Char)) (cs : List Char) : List (List Char) :=
  match h : cutFirst? cs with
  | none => (cs :: found).reverse
  | some (front, back) =>
    have := length_cutFirst?_lt h
    segmentsFrom (front :: found) back
termination_by cs.length

def segments (cs : List Char) : List (List Char) := segmentsFrom [] cs

end SourceOutline.QualifiedName
