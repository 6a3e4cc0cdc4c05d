import SourceOutline.Regex.CharSet
import SourceOutline.Regex.Fault

/-! Patterns as they are written. -/
namespace SourceOutline.Regex

inductive Flag
  | ignoreCase | multiLine | dotAll | swapGreed | wide | crlf | verbose
  deriving DecidableEq, Repr

/-- A flag, or the sign that turns the flags after it off. -/
structure FlagItem where
  extent : Extent
  flag : Option Flag
  deriving DecidableEq, Repr

/-- The last state that a list of flags gives to one of them. -/
def flagState (wanted : Flag) (items : List FlagItem) : Option Bool :=
  (items.foldl (fun (acc : Bool × Option Bool) item =>
    match item.flag with
    | none => (false, acc.2)
    | some f => if f = wanted then (acc.1, some acc.1) else acc) (true, none)).2

/-- A character, and whether it was written as a byte of two hexadecimal digits. -/
structure Literal where
  extent : Extent
  char : Char
  isByte : Bool
  deriving DecidableEq, Repr

inductive Assertion
  | startLine | endLine | startText | endText
  | boundary | notBoundary | wordStart | wordEnd | wordStartHalf | wordEndHalf
  deriving DecidableEq, Repr

inductive SetOperation
  | inter | diff | symmDiff
  deriving DecidableEq, Repr

/-- What stands between brackets. -/
inductive ClassTree
  | empty (extent : Extent)
  | literal (l : Literal)
  | range (extent : Extent) (first last : Literal)
  /-- A named class of ASCII characters. -/
  | named (extent : Extent) (negated : Bool) (set : CharSet)
  /-- Digits, space or words, given by their ASCII characters. -/
  | short (extent : Extent) (negated : Bool) (set : CharSet)
  /-- A property of characters; the short names of some categories are told apart. -/
  | property (extent : Extent) (isCategory : Bool)
  | bracketed (extent : Extent) (negated : Bool) (inner : ClassTree)
  | union (extent : Extent) (items : List ClassTree)
  | operation (extent : Extent) (op : SetOperation) (left right : ClassTree)

def ClassTree.extent : ClassTree → Extent
  | empty e => e
  | literal l => l.extent
  | range e _ _ => e
  | named e _ _ => e
  | short e _ _ => e
  | property e _ => e
  | bracketed e _ _ => e
  | union e _ => e
  | operation e _ _ _ => e

inductive Tree
  | empty (extent : Extent)
  | flags (extent : Extent) (items : List FlagItem)
  | literal (l : Literal)
  | dot (extent : Extent)
  | assertion (extent : Extent) (kind : Assertion)
  | short (extent : Extent) (negated : Bool) (set : CharSet)
  | property (extent : Extent) (isCategory : Bool)
  | bracketed (extent : Extent) (negated : Bool) (inner : ClassTree)
  /-- At least `least` times, and at most `most` times if that is bounded. -/
  | repetition (extent : Extent) (least : Nat) (most : Option Nat) (inner : Tree)
  | group (extent : Extent) (items : List FlagItem) (inner : Tree)
  | alternation (extent : Extent) (parts : List Tree)
  | sequence (extent : Extent) (parts : List Tree)

namespace Tree

def extent : Tree → Extent
  | empty e => e
  | flags e _ => e
  | literal l => l.extent
  | dot e => e
  | assertion e _ => e
  | short e _ _ => e
  | property e _ => e
  | bracketed e _ _ => e
  | repetition e _ _ _ => e
  | group e _ _ => e
  | alternation e _ => e
  | sequence e _ => e

/-- Whether a repetition sign may follow. -/
def isRepeatable : Tree → Bool
  | empty _ => false
  | flags _ _ => false
  | _ => true

/-- How deep brackets, groups and the like may nest. -/
def nestLimit : Nat := 250

end Tree

mutual

/-- The first part that lies deeper than `room` levels. -/
def ClassTree.tooDeep (room : Nat) : ClassTree → Option Extent
  | .bracketed e _ inner => if room = 0 then some e else ClassTree.tooDeep (room - 1) inner
  | .union e items => if room = 0 then some e else ClassTree.anyTooDeep (room - 1) items
  | .operation e _ left right =>
    if room = 0 then some e
    else (ClassTree.tooDeep (room - 1) left).or (ClassTree.tooDeep (room - 1) right)
  | _ => none

def ClassTree.anyTooDeep (room : Nat) : List ClassTree → Option Extent
  | [] => none
  | item :: items => (ClassTree.tooDeep room item).or (ClassTree.anyTooDeep room items)

end

mutual

/-- The first part that lies deeper than `room` levels. -/
def Tree.tooDeep (room : Nat) : Tree → Option Extent
  | .bracketed e _ inner => if room = 0 then some e else ClassTree.tooDeep (room - 1) inner
  | .repetition e _ _ inner => if room = 0 then some e else Tree.tooDeep (room - 1) inner
  | .group e _ inner => if room = 0 then some e else Tree.tooDeep (room - 1) inner
  | .alternation e parts => if room = 0 then some e else Tree.anyTooDeep (room - 1) parts
  | .sequence e parts => if room = 0 then some e else Tree.anyTooDeep (room - 1) parts
  | _ => none

def Tree.anyTooDeep (room : Nat) : List Tree → Option Extent
  | [] => none
  | part :: parts => (Tree.tooDeep room part).or (Tree.anyTooDeep room parts)

end

end SourceOutline.Regex
