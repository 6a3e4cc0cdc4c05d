import SourceOutline.Regex.Reader
import SourceOutline.Regex.Tree
import SourceOutline.Text.Hex

/-! What follows a backslash. -/
namespace SourceOutline.Regex

/-- What stands for one character or one place of a text. -/
inductive Atom
  | literal (l : Literal)
  | dot (extent : Extent)
  | assertion (extent : Extent) (kind : Assertion)
  | short (extent : Extent) (negated : Bool) (set : CharSet)
  | property (extent : Extent) (isCategory : Bool)

namespace Atom

def extent : Atom → Extent
  | literal l => l.extent
  | dot e => e
  | assertion e _ => e
  | short e _ _ => e
  | property e _ => e

def toTree : Atom → Tree
  | literal l => .literal l
  | dot e => .dot e
  | assertion e k => .assertion e k
  | short e n s => .short e n s
  | property e k => .property e k

/-- As a member of a class. -/
def toClass : Atom → Except Fault ClassTree
  | literal l => .ok (.literal l)
  | short e n s => .ok (.short e n s)
  | property e k => .ok (.property e k)
  | a => .error (fault .classEscapeInvalid a.extent)

/-- As an end of a range. -/
def toBound : Atom → Except Fault Literal
  | literal l => .ok l
  | a => .error (fault .classRangeLiteral a.extent)

end Atom

namespace Escape

def isMeta (c : Char) : Bool := "\\.+*?()|[]\x7b\x7d^$#&-~".toList.contains c

/-- Characters that stand for themselves after a backslash. -/
def isPlain (c : Char) : Bool :=
  isMeta c || (c.toNat < 0x80 && !c.isAlphanum && c ≠ '<' && c ≠ '>')

def control? : Char → Option Char
  | 'a' => some '\x07'
  | 'f' => some '\x0c'
  | 't' => some '\t'
  | 'n' => some '\n'
  | 'r' => some '\r'
  | 'v' => some '\x0b'
  | _ => none

def scalar? (ds : List Char) : Option Char :=
  let n := Text.hexNumber ds
  if h : n.isValidChar then some (Char.ofNatAux n h) else none

def hexDigits (isShort : Bool) (start : Place) : Nat → Reader → List Char → Read Literal
  | 0, r, acc =>
    match scalar? acc.reverse with
    | some c => .ok (⟨r.since start, c, isShort⟩, r)
    | none => .error (fault .hexInvalid (r.since start))
  | n + 1, r, acc =>
    match r.char? with
    | none => .error (fault .escapeUnexpectedEnd r.here)
    | some c =>
      if Text.isHexDigit c then hexDigits isShort start n r.advance (c :: acc)
      else .error (fault .hexInvalidDigit r.hereChar)

/-- Digits between braces. -/
def hexBraced (r : Reader) : Read Literal :=
  let brace := r.place
  let start := r.bump.place
  let digits := r.advance.collect Text.isHexDigit
  let after := digits.2
  match after.char? with
  | none => .error (fault .escapeUnexpectedEnd (after.since brace))
  | some c =>
    if c ≠ '\x7d' then .error (fault .hexInvalidDigit after.hereChar)
    else
      let closed := after.advance
      if digits.1.isEmpty then .error (fault .hexEmpty (closed.since brace))
      else
        match scalar? digits.1 with
        | some c => .ok (⟨closed.since start, c, false⟩, closed)
        | none => .error (fault .hexInvalid (after.since start))

/-- A character by its number. -/
def hex (letter : Char) (r : Reader) : Read Literal :=
  let count := if letter = 'x' then 2 else if letter = 'u' then 4 else 8
  let r := r.advance
  match r.char? with
  | none => .error (fault .escapeUnexpectedEnd r.here)
  | some c =>
    if c = '\x7b' then hexBraced r else hexDigits (letter = 'x') r.place count r []

/-- Names of properties are compared without case, blanks, dashes and a leading `is`. -/
def plainName (name : List Char) : String :=
  let name := name.map Char.toLower
  let isPart := name.take 2 = ['i', 's']
  let core := (if isPart then name.drop 2 else name).filter
    fun c => c.toNat < 0x80 && c ≠ ' ' && c ≠ '_' && c ≠ '-'
  if isPart && core = ['c'] then "isc" else String.ofList core

def isCategory (name : List Char) : Bool := ["cf", "sc", "lc"].contains (plainName name)

def property (start : Place) (r : Reader) : Read Atom :=
  let r := r.advance
  match r.char? with
  | none => .error (fault .escapeUnexpectedEnd r.here)
  | some c =>
    if c = '\x7b' then
      let name := r.advance.collect (· ≠ '\x7d')
      if name.2.atEnd then .error (fault .escapeUnexpectedEnd name.2.here)
      else
        let after := name.2.bump
        .ok (.property (after.since start) (isCategory name.1), after)
    else if c = '\\' then .error (fault .propertyInvalid r.hereChar)
    else
      let after := r.advance
      .ok (.property (after.since start) false, after)

def shortSet? : Char → Option CharSet
  | 'd' => asciiClass? "digit"
  | 's' => asciiClass? "space"
  | 'w' => asciiClass? "word"
  | _ => none

def isBoundaryChar (c : Char) : Bool := c.isAlpha || c = '-'

def boundary? : String → Option Assertion
  | "start" => some .wordStart
  | "end" => some .wordEnd
  | "start-half" => some .wordStartHalf
  | "end-half" => some .wordEndHalf
  | _ => none

/-- A name in braces after `\b`. Braces that hold something else are left to be a repetition. -/
def boundary (start : Place) (r : Reader) : Read Atom :=
  let plain : Atom × Reader := (.assertion (r.since start) .boundary, r)
  if r.char? ≠ some '\x7b' then .ok plain
  else
    let inside := r.advance
    match inside.char? with
    | none => .error (fault .boundaryUnexpectedEnd (inside.since start))
    | some c =>
      if !isBoundaryChar c then .ok plain
      else
        let name := inside.collect isBoundaryChar
        if name.2.char? ≠ some '\x7d' then
          .error (fault .boundaryUnclosed (name.2.since r.place))
        else
          match boundary? (String.ofList name.1) with
          | none => .error (fault .boundaryUnrecognized (name.2.since inside.place))
          | some kind =>
            let after := name.2.bump
            .ok (.assertion (after.since start) kind, after)

/-- One letter, the reader being past it. -/
def simple (start : Place) (c : Char) (r : Reader) : Read Atom :=
  let extent := r.since start
  if isPlain c then .ok (.literal ⟨extent, c, false⟩, r)
  else
    match control? c with
    | some d => .ok (.literal ⟨extent, d, false⟩, r)
    | none =>
      match c with
      | 'A' => .ok (.assertion extent .startText, r)
      | 'z' => .ok (.assertion extent .endText, r)
      | 'b' => boundary start r
      | 'B' => .ok (.assertion extent .notBoundary, r)
      | '<' => .ok (.assertion extent .wordStart, r)
      | '>' => .ok (.assertion extent .wordEnd, r)
      | _ => .error (fault .escapeUnrecognized extent)

/-- An escape, the backslash being the next character. -/
def read (r : Reader) : Read Atom :=
  let start := r.place
  let r := r.bump
  match r.char? with
  | none => .error (fault .escapeUnexpectedEnd (r.since start))
  | some c =>
    if c.isDigit then .error (fault .backreference ⟨start, r.hereChar.stop⟩)
    else if c = 'x' || c = 'u' || c = 'U' then
      match hex c r with
      | .error f => .error f
      | .ok (l, after) => .ok (.literal { l with extent := after.since start }, after)
    else if c = 'p' || c = 'P' then property start r
    else
      match shortSet? c.toLower with
      | some set => .ok (.short (r.bump.since start) c.isUpper set, r.bump)
      | none => simple start c r.bump

end Escape
end SourceOutline.Regex
