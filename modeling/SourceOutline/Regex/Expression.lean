import SourceOutline.Regex.Tree

/-! What a pattern means: each part of its tree under the flags in force there. -/
namespace SourceOutline.Regex

/-- Conditions on a place between two characters. -/
inductive Look
  | startText | endText | startLine | endLine | startLineCrlf | endLineCrlf
  | boundary | notBoundary | wordStart | wordEnd | wordStartHalf | wordEndHalf
  /-- A condition on words in all alphabets, for which there are no tables. -/
  | wideWord
  deriving DecidableEq, Repr

inductive Expression
  | empty
  | chars (set : CharSet)
  | look (condition : Look)
  | repetition (least : Nat) (most : Option Nat) (inner : Expression)
  | group (inner : Expression)
  | alternation (parts : List Expression)
  | sequence (parts : List Expression)

/-- The flags in force. Wide patterns are about characters of all alphabets, the others about
ASCII. -/
structure Mode where
  ignoreCase : Bool
  multiLine : Bool
  dotAll : Bool
  crlf : Bool
  wide : Bool
  deriving DecidableEq, Repr

namespace Mode

def initial : Mode := ⟨false, false, false, false, true⟩

def set (mode : Mode) (items : List FlagItem) : Mode where
  ignoreCase := (flagState .ignoreCase items).getD mode.ignoreCase
  multiLine := (flagState .multiLine items).getD mode.multiLine
  dotAll := (flagState .dotAll items).getD mode.dotAll
  crlf := (flagState .crlf items).getD mode.crlf
  wide := (flagState .wide items).getD mode.wide

/-- Both cases of a set, where case is ignored. That needs tables in a wide pattern. -/
def folded (mode : Mode) (extent : Extent) (s : CharSet) : Except Fault CharSet :=
  if !mode.ignoreCase then .ok s
  else if !mode.wide then .ok s.withBothCases
  else if s.isEmpty then .ok s
  else .error ⟨.wideCaseNotFound, extent, none⟩

/-- Bytes beyond ASCII alone are no text. -/
def checked (mode : Mode) (extent : Extent) (s : CharSet) : Except Fault CharSet :=
  if mode.wide || s.isAscii then .ok s else .error ⟨.invalidText, extent, none⟩

def complemented (mode : Mode) (negated : Bool) (s : CharSet) : CharSet :=
  if negated then s.complement (if mode.wide then CharSet.topChar else CharSet.topByte) else s

def foldedAndNegated (mode : Mode) (extent : Extent) (negated : Bool) (s : CharSet) :
    Except Fault CharSet := do
  let s ← mode.folded extent s
  mode.checked extent (mode.complemented negated s)

def short (mode : Mode) (extent : Extent) (negated : Bool) (s : CharSet) :
    Except Fault CharSet :=
  if mode.wide then .error ⟨.wideClassNotFound, extent, none⟩
  else mode.checked extent (mode.complemented negated s)

def property (mode : Mode) (extent : Extent) (isCategory : Bool) : Fault :=
  if !mode.wide then ⟨.wideNotAllowed, extent, none⟩
  else ⟨if isCategory then .propertyValueNotFound else .propertyNotFound, extent, none⟩

/-- A byte beyond ASCII is no character. -/
def literal (mode : Mode) (l : Literal) : Except Fault Char :=
  if !mode.wide && l.isByte && 0x80 ≤ l.char.toNat then .error ⟨.invalidText, l.extent, none⟩
  else .ok l.char

/-- The code point of a member of a class. -/
def member (mode : Mode) (l : Literal) : Except Fault Nat := do
  let c ← mode.literal l
  if !mode.wide && 0x80 ≤ c.toNat then .error ⟨.wideNotAllowed, l.extent, none⟩
  else return c.toNat

def dot (mode : Mode) (extent : Extent) : Except Fault CharSet :=
  if !mode.wide then .error ⟨.invalidText, extent, none⟩
  else
    let excluded : CharSet :=
      if mode.dotAll then [] else if mode.crlf then [(10, 10), (13, 13)] else [(10, 10)]
    .ok (excluded.complement CharSet.topChar)

def look (mode : Mode) : Assertion → Look
  | .startLine =>
    if !mode.multiLine then .startText else if mode.crlf then .startLineCrlf else .startLine
  | .endLine =>
    if !mode.multiLine then .endText else if mode.crlf then .endLineCrlf else .endLine
  | .startText => .startText
  | .endText => .endText
  | .boundary => if mode.wide then .wideWord else .boundary
  | .notBoundary => if mode.wide then .wideWord else .notBoundary
  | .wordStart => if mode.wide then .wideWord else .wordStart
  | .wordEnd => if mode.wide then .wideWord else .wordEnd
  | .wordStartHalf => if mode.wide then .wideWord else .wordStartHalf
  | .wordEndHalf => if mode.wide then .wideWord else .wordEndHalf

end Mode

def SetOperation.apply : SetOperation → CharSet → CharSet → CharSet
  | .inter => CharSet.inter
  | .diff => CharSet.diff
  | .symmDiff => CharSet.symmDiff

mutual

/-- The characters of a class. -/
def ClassTree.chars (mode : Mode) : ClassTree → Except Fault CharSet
  | .empty _ => .ok []
  | .literal l => do
    let n ← mode.member l
    return [(n, n)]
  | .range _ first last => do
    let a ← mode.member first
    let b ← mode.member last
    return [(a, b)]
  | .named extent negated s => mode.foldedAndNegated extent negated s
  | .short extent negated s => mode.short extent negated s
  | .property extent isCategory => .error (mode.property extent isCategory)
  | .bracketed extent negated inner => do
    let s ← ClassTree.chars mode inner
    mode.foldedAndNegated extent negated s
  | .union _ items => ClassTree.charsOfAll mode items
  | .operation _ op left right => do
    let l ← ClassTree.chars mode left
    let r ← ClassTree.chars mode right
    let r ← mode.folded right.extent r
    let l ← mode.folded left.extent l
    return op.apply l r

def ClassTree.charsOfAll (mode : Mode) : List ClassTree → Except Fault CharSet
  | [] => .ok []
  | item :: items => do
    let s ← ClassTree.chars mode item
    let t ← ClassTree.charsOfAll mode items
    return s.union t

end

mutual

/-- The expression of a tree, and the flags in force after it. Flags hold to the end of the group
they stand in, through all later alternatives. -/
def Tree.expression (mode : Mode) : Tree → Except Fault (Expression × Mode)
  | .empty _ => .ok (.empty, mode)
  | .flags _ items => .ok (.empty, mode.set items)
  | .literal l => do
    let c ← mode.literal l
    let s ← mode.folded l.extent [(c.toNat, c.toNat)]
    return (.chars s, mode)
  | .dot extent => do
    let s ← mode.dot extent
    return (.chars s, mode)
  | .assertion _ kind => .ok (.look (mode.look kind), mode)
  | .short extent negated s => do
    let s ← mode.short extent negated s
    return (.chars s, mode)
  | .property extent isCategory => .error (mode.property extent isCategory)
  | .bracketed extent negated inner => do
    let s ← inner.chars mode
    let s ← mode.foldedAndNegated extent negated s
    return (.chars s, mode)
  | .repetition _ least most inner => do
    let e ← Tree.expression mode inner
    return (.repetition least most e.1, e.2)
  | .group _ items inner => do
    let e ← Tree.expression (mode.set items) inner
    return (.group e.1, mode)
  | .alternation _ parts => do
    let es ← Tree.expressions mode parts
    return (.alternation es.1, es.2)
  | .sequence _ parts => do
    let es ← Tree.expressions mode parts
    return (.sequence es.1, es.2)

def Tree.expressions (mode : Mode) : List Tree → Except Fault (List Expression × Mode)
  | [] => .ok ([], mode)
  | part :: parts => do
    let e ← Tree.expression mode part
    let es ← Tree.expressions e.2 parts
    return (e.1 :: es.1, es.2)

end

mutual

/-- Whether a text of no characters is all that can be found. -/
def Expression.isPlace : Expression → Bool
  | .empty => true
  | .chars _ => false
  | .look _ => true
  | .repetition _ most inner => most = some 0 || Expression.isPlace inner
  | .group inner => Expression.isPlace inner
  | .alternation parts => Expression.arePlaces parts
  | .sequence parts => Expression.arePlaces parts

def Expression.arePlaces : List Expression → Bool
  | [] => true
  | part :: parts => Expression.isPlace part && Expression.arePlaces parts

end

mutual

/-- Whether words in all alphabets are asked for in a part that is ever tried. -/
def Expression.needsWords : Expression → Bool
  | .look condition => condition = .wideWord
  | .repetition _ most inner => most ≠ some 0 && Expression.needsWords inner
  | .group inner => Expression.needsWords inner
  | .alternation parts => Expression.anyNeedsWords parts
  | .sequence parts => Expression.anyNeedsWords parts
  | _ => false

def Expression.anyNeedsWords : List Expression → Bool
  | [] => false
  | part :: parts => Expression.needsWords part || Expression.anyNeedsWords parts

end

/-- The room that one set of characters takes. -/
def CharSet.room (s : CharSet) : Nat :=
  match s with
  | [(a, b)] => if a = b then (if a < 0x80 then 32 else if a < 0x800 then 64 else 128)
    else if b < 0x80 then 32 else 500
  | s => if s.isAscii then 64 + 8 * s.length else 500

mutual

/-- The room that an expression takes, in bytes. A bounded repetition is written out. -/
def Expression.room : Expression → Nat
  | .empty => 32
  | .chars s => s.room
  | .look _ => 32
  | .repetition least most inner =>
    let one := Expression.room inner
    let isPlace := Expression.isPlace inner
    let least := if isPlace then min least 1 else least
    let most := if isPlace then some (min (most.getD 1) 1) else most
    match most with
    | none => max least 1 * one + 40
    | some m => least * one + (m - least) * (one + 40)
  | .group inner => Expression.room inner + 64
  | .alternation parts => Expression.roomOfAll parts + 32 + 4 * parts.length
  | .sequence parts => Expression.roomOfAll parts

def Expression.roomOfAll : List Expression → Nat
  | [] => 0
  | part :: parts => Expression.room part + Expression.roomOfAll parts

end

/-- The greatest room that an expression may take. -/
def Expression.roomLimit : Nat := 10 * 1 <<< 20

end SourceOutline.Regex
