/-! Sets of characters, as ranges of code points in increasing order. -/
namespace SourceOutline.Regex

abbrev CharSet := List (Nat × Nat)

namespace CharSet

/-- The greatest code point, and the greatest byte. -/
def topChar : Nat := 0x10ffff

def topByte : Nat := 0xff

/-- Joins ranges, in the order of their starts, that overlap or touch. -/
def join (lo hi : Nat) : List (Nat × Nat) → CharSet
  | [] => [(lo, hi)]
  | (a, b) :: rest => if a ≤ hi + 1 then join lo (max hi b) rest else (lo, hi) :: join a b rest

def insertRange (r : Nat × Nat) : List (Nat × Nat) → List (Nat × Nat)
  | [] => [r]
  | s :: rest => if r.1 ≤ s.1 then r :: s :: rest else s :: insertRange r rest

def ofRanges (ranges : List (Nat × Nat)) : CharSet :=
  match ranges.foldr insertRange [] with
  | [] => []
  | (a, b) :: rest => join a b rest

def union (s t : CharSet) : CharSet := ofRanges (s ++ t)

/-- What lies from `least` to `top` outside of a set. -/
def gaps (least top : Nat) : CharSet → CharSet
  | [] => if least ≤ top then [(least, top)] else []
  | (a, b) :: rest =>
    if least < a then (least, a - 1) :: gaps (b + 1) top rest else gaps (b + 1) top rest

def complement (top : Nat) (s : CharSet) : CharSet := gaps 0 top s

def inter (s t : CharSet) : CharSet :=
  complement topChar (union (complement topChar s) (complement topChar t))

def diff (s t : CharSet) : CharSet := inter s (complement topChar t)

def symmDiff (s t : CharSet) : CharSet := union (diff s t) (diff t s)

def contains (s : CharSet) (c : Char) : Bool := s.any fun r => r.1 ≤ c.toNat && c.toNat ≤ r.2

def isAscii (s : CharSet) : Bool := s.all fun r => r.2 ≤ 0x7f

def upper : CharSet := [(0x41, 0x5a)]

def lower : CharSet := [(0x61, 0x7a)]

/-- The set with both cases of its ASCII letters. -/
def withBothCases (s : CharSet) : CharSet :=
  let down := (inter s upper).map fun r => (r.1 + 32, r.2 + 32)
  let up := (inter s lower).map fun r => (r.1 - 32, r.2 - 32)
  union s (union down up)

example : inter [(0x61, 0x7a)] [(0x78, 0x80)] = [(0x78, 0x7a)] := by decide +kernel
example : withBothCases [(0x59, 0x62)] = [(0x41, 0x42), (0x59, 0x62), (0x79, 0x7a)] := by
  decide +kernel

end CharSet

/-- The named classes of ASCII characters. -/
def asciiClass? : String → Option CharSet
  | "alnum" => some [(0x30, 0x39), (0x41, 0x5a), (0x61, 0x7a)]
  | "alpha" => some [(0x41, 0x5a), (0x61, 0x7a)]
  | "ascii" => some [(0x00, 0x7f)]
  | "blank" => some [(0x09, 0x09), (0x20, 0x20)]
  | "cntrl" => some [(0x00, 0x1f), (0x7f, 0x7f)]
  | "digit" => some [(0x30, 0x39)]
  | "graph" => some [(0x21, 0x7e)]
  | "lower" => some CharSet.lower
  | "print" => some [(0x20, 0x7e)]
  | "punct" => some [(0x21, 0x2f), (0x3a, 0x40), (0x5b, 0x60), (0x7b, 0x7e)]
  | "space" => some [(0x09, 0x0d), (0x20, 0x20)]
  | "upper" => some CharSet.upper
  | "word" => some [(0x30, 0x39), (0x41, 0x5a), (0x5f, 0x5f), (0x61, 0x7a)]
  | "xdigit" => some [(0x30, 0x39), (0x41, 0x46), (0x61, 0x66)]
  | _ => none

end SourceOutline.Regex
