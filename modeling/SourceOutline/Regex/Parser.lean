import SourceOutline.Regex.Bracket
import SourceOutline.Text.Numeric

/-! From the text of a pattern to its tree. -/
namespace SourceOutline.Regex

/-- A sequence read so far, the last part first. -/
structure Parts where
  start : Place
  parts : List Tree

namespace Parts

def none (p : Place) : Parts := ⟨p, []⟩

def push (ps : Parts) (t : Tree) : Parts := { ps with parts := t :: ps.parts }

def toTree (ps : Parts) (stop : Place) : Tree :=
  match ps.parts with
  | [] => .empty ⟨ps.start, stop⟩
  | [t] => t
  | parts => .sequence ⟨ps.start, stop⟩ parts.reverse

end Parts

/-- What waits for the end of a group. -/
inductive Waiting
  /-- An open group, with the sequence before it and whether that was verbose. -/
  | group (before : Parts) (extent : Extent) (items : List FlagItem) (verbose : Bool)
  /-- The alternatives before this one, the last first. -/
  | alternation (start : Place) (parts : List Tree)

namespace Parser

def isNameStart (c : Char) : Bool := c = '_' || Text.isAlphabetic c

def isNameChar (c : Char) : Bool :=
  c = '_' || c = '.' || c = '[' || c = ']' || Text.isAlphanumeric c

/-- The name of a group, up to its closing sign. -/
def groupName (r : Reader) : Except Fault Reader :=
  if r.atEnd then .error (fault .groupNameUnexpectedEnd r.here)
  else
    let stop :=
      match r.char? with
      | some c => if isNameStart c then r.bump.bumpWhile isNameChar else r
      | none => r
    match stop.char? with
    | none => .error (fault .groupNameUnexpectedEnd stop.here)
    | some c =>
      if c ≠ '>' then .error (fault .groupNameInvalid stop.hereChar)
      else
        let name := String.ofList (r.rest.take (stop.place.offset - r.place.offset))
        let extent := stop.since r.place
        if name.isEmpty then .error (fault .groupNameEmpty r.here)
        else
          match stop.names.find? (·.1 = name) with
          | some (_, earlier) => .error ⟨.groupNameDuplicate, extent, some earlier⟩
          | none => .ok { stop.bump with names := (name, extent) :: stop.names }

def flag? : Char → Option Flag
  | 'i' => some .ignoreCase
  | 'm' => some .multiLine
  | 's' => some .dotAll
  | 'U' => some .swapGreed
  | 'u' => some .wide
  | 'R' => some .crlf
  | 'x' => some .verbose
  | _ => none

def addFlag (item : FlagItem) (items : List FlagItem) : Except Fault (List FlagItem) :=
  match items.find? (·.flag = item.flag) with
  | none => .ok (items ++ [item])
  | some earlier =>
    .error ⟨if item.flag.isNone then .flagRepeatedNegation else .flagDuplicate, item.extent,
      some earlier.extent⟩

/-- Flags up to a colon or a closing parenthesis. -/
def flags : Nat → Reader → List FlagItem → Read (List FlagItem)
  | 0, r, _ => .error (fault .flagUnexpectedEnd r.here)
  | fuel + 1, r, items =>
    match r.char? with
    | none => .error (fault .flagUnexpectedEnd r.here)
    | some c =>
      if c = ':' || c = ')' then
        match items.getLast? with
        | some ⟨extent, none⟩ => .error (fault .flagDanglingNegation extent)
        | _ => .ok (items, r)
      else if c ≠ '-' && (flag? c).isNone then .error (fault .flagUnrecognized r.hereChar)
      else
        match addFlag ⟨r.hereChar, if c = '-' then none else flag? c⟩ items with
        | .error f => .error f
        | .ok items => flags fuel r.bump items

/-- What an open parenthesis begins. -/
inductive Opening
  | flags (extent : Extent) (items : List FlagItem)
  | group (extent : Extent) (items : List FlagItem)

/-- The start of a group, or flags for what follows. -/
def opening (r : Reader) : Read Opening :=
  let extent := r.hereChar
  let inside := r.bump.skipBlanks
  let around := (["?=", "?!", "?<=", "?<!"].filterMap inside.bumpIf).head?
  let named := (inside.bumpIf "?P<").or (inside.bumpIf "?<")
  match around, named, inside.bumpIf "?" with
  | some after, _, _ => .error (fault .lookAround (after.since extent.start))
  | _, some start, _ =>
    match groupName start with
    | .error f => .error f
    | .ok after => .ok (.group extent [], after)
  | _, _, some start =>
    if start.atEnd then .error (fault .groupUnclosed extent)
    else
      match flags (start.rest.length + 1) start [] with
      | .error f => .error f
      | .ok (items, stop) =>
        if stop.char? = some ')' then
          if items.isEmpty then .error (fault .repetitionMissing inside.here)
          else .ok (.flags (stop.bump.since extent.start) items, stop.bump)
        else .ok (.group extent items, stop.bump)
  | _, _, none => .ok (.group extent [], inside)

/-- Takes off the last part, which a repetition sign follows. -/
def repeated (ps : Parts) (r : Reader) : Except Fault (Tree × Parts) :=
  match ps.parts with
  | t :: before =>
    if t.isRepeatable then .ok (t, { ps with parts := before })
    else .error (fault .repetitionMissing r.here)
  | [] => .error (fault .repetitionMissing r.here)

def pastLazy (r : Reader) : Reader := if r.char? = some '?' then r.bump else r

def uncounted (least : Nat) (most : Option Nat) (ps : Parts) (r : Reader) :
    Except Fault (Parts × Reader) := do
  let (t, before) ← repeated ps r
  let after := pastLazy r.bump
  return (before.push (.repetition ⟨t.extent.start, after.place⟩ least most t), after)

/-- A missing number of a repetition has a message of its own. -/
def asCount (n : Except Fault Nat) : Except Fault Nat :=
  n.mapError fun f => if f.cause = .decimalEmpty then { f with cause := .countEmpty } else f

/-- The bounds of a repetition, the reader being past the brace at `start`. -/
def bounds (start : Place) (r : Reader) : Except Fault ((Nat × Option Nat) × Reader) :=
  let first := r.decimal
  let least := asCount first.1
  let r := first.2
  if r.atEnd then .error (fault .countUnclosed (r.since start))
  else if r.char? = some ',' then
    let r := r.advance
    if r.atEnd then .error (fault .countUnclosed (r.since start))
    else if r.char? = some '\x7d' then least.map fun n => ((n, none), r)
    else do
      let n ← least
      let second := r.decimal
      let m ← asCount second.1
      return ((n, some m), second.2)
  else least.map fun n => ((n, some n), r)

def counted (ps : Parts) (r : Reader) : Except Fault (Parts × Reader) := do
  let start := r.place
  let (t, before) ← repeated ps r
  let inside := r.advance
  if inside.atEnd then .error (fault .countUnclosed (inside.since start))
  else
    let ((least, most), stop) ← bounds start inside
    if stop.char? ≠ some '\x7d' then .error (fault .countUnclosed (stop.since start))
    else
      let after := pastLazy stop.advance
      if most.any (· < least) then .error (fault .countInvalid (after.since start))
      else return (before.push (.repetition ⟨t.extent.start, after.place⟩ least most t), after)

def atom (c : Char) (r : Reader) : Read Atom :=
  match c with
  | '\\' => Escape.read r
  | '.' => .ok (.dot r.hereChar, r.bump)
  | '^' => .ok (.assertion r.hereChar .startLine, r.bump)
  | '$' => .ok (.assertion r.hereChar .endLine, r.bump)
  | c => .ok (.literal ⟨r.hereChar, c, false⟩, r.bump)

/-- The group that a closing parenthesis ends, and the sequence that goes on after it. -/
def closing (stack : List Waiting) (ps : Parts) (r : Reader) :
    Except Fault (List Waiting × Parts × Reader) :=
  let inner := ps.toTree r.place
  let finish (before : Parts) (extent : Extent) (items : List FlagItem) (verbose : Bool)
      (inner : Tree) : Parts × Reader :=
    let after := { r.bump with verbose := verbose }
    (before.push (.group (after.since extent.start) items inner), after)
  match stack with
  | .group before extent items verbose :: rest =>
    .ok (rest, finish before extent items verbose inner)
  | .alternation start parts :: .group before extent items verbose :: rest =>
    let whole := .alternation (r.since start) (inner :: parts).reverse
    .ok (rest, finish before extent items verbose whole)
  | _ => .error (fault .groupUnopened r.hereChar)

/-- An alternative ends here. -/
def alternate (stack : List Waiting) (ps : Parts) (r : Reader) : List Waiting :=
  let inner := ps.toTree r.place
  match stack with
  | .alternation start parts :: rest => .alternation start (inner :: parts) :: rest
  | stack => .alternation ps.start [inner] :: stack

/-- The pattern ends here. -/
def finish (stack : List Waiting) (ps : Parts) (r : Reader) : Except Fault Tree :=
  let inner := ps.toTree r.place
  match stack with
  | [] => .ok inner
  | [.alternation start parts] => .ok (.alternation (r.since start) (inner :: parts).reverse)
  | .alternation _ _ :: .group _ extent _ _ :: _ => .error (fault .groupUnclosed extent)
  | .group _ extent _ _ :: _ => .error (fault .groupUnclosed extent)
  | .alternation _ _ :: .alternation _ _ :: _ => .ok inner

def loop : Nat → List Waiting → Parts → Reader → Except Fault Tree
  | 0, stack, ps, r => finish stack ps r
  | fuel + 1, stack, ps, r => do
    let r := r.skipBlanks
    match r.char? with
    | none => finish stack ps r
    | some '(' =>
      match ← opening r with
      | (.flags extent items, after) =>
        let verbose := (flagState .verbose items).getD after.verbose
        loop fuel stack (ps.push (.flags extent items)) { after with verbose := verbose }
      | (.group extent items, after) =>
        let verbose := (flagState .verbose items).getD after.verbose
        let inside := { after with verbose := verbose }
        loop fuel (.group ps extent items after.verbose :: stack) (.none inside.place) inside
    | some ')' =>
      let (rest, parts, after) ← closing stack ps r
      loop fuel rest parts after
    | some '|' => loop fuel (alternate stack ps r) (.none r.bump.place) r.bump
    | some '[' =>
      let (t, after) ← Bracket.read r
      loop fuel stack (ps.push t) after
    | some '?' =>
      let (parts, after) ← uncounted 0 (some 1) ps r
      loop fuel stack parts after
    | some '*' =>
      let (parts, after) ← uncounted 0 none ps r
      loop fuel stack parts after
    | some '+' =>
      let (parts, after) ← uncounted 1 none ps r
      loop fuel stack parts after
    | some '\x7b' =>
      let (parts, after) ← counted ps r
      loop fuel stack parts after
    | some c =>
      let (a, after) ← atom c r
      loop fuel stack (ps.push a.toTree) after

end Parser

/-- The tree of a pattern. -/
def Tree.parse (pattern : String) : Except Fault Tree := do
  let r := Reader.ofText pattern
  let tree ← Parser.loop (r.rest.length + 1) [] (.none r.place) r
  match tree.tooDeep Tree.nestLimit with
  | some extent => .error (fault (.nestingTooDeep Tree.nestLimit) extent)
  | none => return tree

end SourceOutline.Regex
