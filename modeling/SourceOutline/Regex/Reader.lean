import SourceOutline.Regex.Fault
import SourceOutline.Text.Blank

/-! Reading a pattern character by character. -/
namespace SourceOutline.Regex

/-- What is left of a pattern. In a verbose pattern blanks and comments are skipped. -/
structure Reader where
  rest : List Char
  place : Place
  verbose : Bool
  /-- The names of the groups read so far. -/
  names : List (String × Extent)

/-- A value and what is left, or a fault. -/
abbrev Read (α : Type) := Except Fault (α × Reader)

def fault (cause : Cause) (extent : Extent) : Fault := ⟨cause, extent, none⟩

namespace Reader

def ofText (s : String) : Reader := ⟨s.toList, .start, false, []⟩

def char? (r : Reader) : Option Char := r.rest.head?

def atEnd (r : Reader) : Bool := r.rest.isEmpty

def bump (r : Reader) : Reader :=
  match r.rest with
  | [] => r
  | c :: cs => { r with rest := cs, place := r.place.step c }

def bumpTimes : Nat → Reader → Reader
  | 0, r => r
  | n + 1, r => bumpTimes n r.bump

/-- Past `word`, if it comes next. -/
def bumpIf (word : String) (r : Reader) : Option Reader :=
  if word.toList.isPrefixOf r.rest then some (bumpTimes word.length r) else none

/-- Past blanks, and past comments, which run from a hash to the end of the line. -/
def blanksFrom (inComment : Bool) (p : Place) : List Char → Place × List Char
  | [] => (p, [])
  | c :: cs =>
    if inComment then blanksFrom (c ≠ '\n') (p.step c) cs
    else if Text.isBlank c then blanksFrom false (p.step c) cs
    else if c = '#' then blanksFrom true (p.step c) cs
    else (p, c :: cs)

def skipBlanks (r : Reader) : Reader :=
  if r.verbose then
    let out := blanksFrom false r.place r.rest
    { r with rest := out.2, place := out.1 }
  else r

def advance (r : Reader) : Reader := r.bump.skipBlanks

def here (r : Reader) : Extent := .point r.place

/-- The extent of the next character. -/
def hereChar (r : Reader) : Extent := ⟨r.place, r.bump.place⟩

def since (r : Reader) (start : Place) : Extent := ⟨start, r.place⟩

/-- The character after the next one. -/
def peek? (r : Reader) : Option Char := r.rest.tail.head?

/-- The first character of `cs` past blanks and the hash of a comment. -/
def peekPast (inComment : Bool) : List Char → Option Char
  | [] => none
  | c :: cs =>
    if Text.isBlank c then peekPast inComment cs
    else if !inComment && c = '#' then peekPast true cs
    else some c

/-- The character after the next one and after the blanks between them. -/
def peekPastBlanks? (r : Reader) : Option Char :=
  if r.verbose then (peekPast false r.rest.tail).or r.peek? else r.peek?

def collectFrom (ok : Char → Bool) : Nat → Reader → List Char → List Char × Reader
  | 0, r, acc => (acc.reverse, r)
  | fuel + 1, r, acc =>
    match r.rest with
    | [] => (acc.reverse, r)
    | c :: _ => if ok c then collectFrom ok fuel r.advance (c :: acc) else (acc.reverse, r)

/-- The characters up to the first that is not `ok`, without the blanks between them. -/
def collect (ok : Char → Bool) (r : Reader) : List Char × Reader :=
  collectFrom ok r.rest.length r []

def bumpWhileFrom (ok : Char → Bool) : Nat → Reader → Reader
  | 0, r => r
  | fuel + 1, r =>
    match r.rest with
    | [] => r
    | c :: _ => if ok c then bumpWhileFrom ok fuel r.bump else r

def bumpWhile (ok : Char → Bool) (r : Reader) : Reader := bumpWhileFrom ok r.rest.length r

/-- The greatest number that may be written. -/
def topNumber : Nat := 1 <<< 32 - 1

/-- A decimal number, with blanks around it, and the reader after it in any case. -/
def decimal (r : Reader) : Except Fault Nat × Reader :=
  let r := r.bumpWhile Text.isBlank
  let start := r.place
  let digits := r.collect Char.isDigit
  let extent := digits.2.since start
  let after := (digits.2.collect Text.isBlank).2
  let value := digits.1.foldl (fun n c => 10 * n + (c.toNat - 48)) 0
  (if digits.1.isEmpty then .error (fault .decimalEmpty extent)
   else if topNumber < value then .error (fault .decimalInvalid extent)
   else .ok value, after)

end Reader
end SourceOutline.Regex
