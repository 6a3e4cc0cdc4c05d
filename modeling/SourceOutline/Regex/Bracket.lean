import SourceOutline.Regex.Escape

/-! Classes of characters between brackets. -/
namespace SourceOutline.Regex

/-- The members of a class read so far, the last first. -/
structure Members where
  extent : Extent
  items : List ClassTree

namespace Members

def none (p : Place) : Members := ⟨.point p, []⟩

def push (m : Members) (item : ClassTree) : Members :=
  ⟨⟨if m.items.isEmpty then item.extent.start else m.extent.start, item.extent.stop⟩,
    item :: m.items⟩

def toClass (m : Members) : ClassTree :=
  match m.items with
  | [] => .empty m.extent
  | [item] => item
  | items => .union m.extent items.reverse

end Members

/-- What waits for the end of a class. -/
inductive Pending
  /-- An open bracket, with what was read of the class around it. -/
  | opened (around : Members) (extent : Extent) (negated : Bool)
  /-- A set operation, with its left side. -/
  | operation (op : SetOperation) (left : ClassTree)

namespace Bracket

/-- The innermost open bracket is the one to blame. -/
def unclosed (r : Reader) : List Pending → Fault
  | [] => fault .classUnclosed r.here
  | .opened _ extent _ :: _ => fault .classUnclosed extent
  | .operation _ _ :: rest => unclosed r rest

def dashes (start : Place) : Nat → Reader → Members → Read Members
  | 0, r, m => .ok (m, r)
  | fuel + 1, r, m =>
    if r.char? = some '-' then
      let m := m.push (.literal ⟨r.hereChar, '-', false⟩)
      let after := r.advance
      if after.atEnd then .error (fault .classUnclosed (.point start))
      else dashes start fuel after m
    else .ok (m, r)

/-- An open bracket, a sign of negation, and the dashes or the closing bracket that stand for
themselves. -/
def opening (around : Members) (r : Reader) : Read (Pending × Members) :=
  let start := r.place
  let first := r.advance
  if first.atEnd then .error (fault .classUnclosed (first.since start))
  else
    let negated := first.char? = some '^'
    let second := if negated then first.advance else first
    if second.atEnd then .error (fault .classUnclosed (second.since start))
    else
      match dashes start second.rest.length second (.none second.place) with
      | .error f => .error f
      | .ok (m, third) =>
        if m.items.isEmpty && third.char? = some ']' then
          let m := m.push (.literal ⟨third.hereChar, ']', false⟩)
          let fourth := third.advance
          if fourth.atEnd then .error (fault .classUnclosed (fourth.since start))
          else .ok ((.opened around (fourth.since start) negated, m), fourth)
        else .ok ((.opened around (third.since start) negated, m), third)

/-- A named class, or nothing where none is written. -/
def named? (r : Reader) : Option (ClassTree × Reader) :=
  match r.bumpIf "[:" with
  | none => none
  | some inside =>
    let negated := inside.char? = some '^'
    let inside := if negated then inside.bump else inside
    let stop := inside.bumpWhile (· ≠ ':')
    let name := inside.rest.takeWhile (· ≠ ':')
    match stop.bumpIf ":]", asciiClass? (String.ofList name) with
    | some after, some set => some (.named (after.since r.place) negated set, after)
    | _, _ => none

/-- An operation that waits takes `right` as its right side. -/
def applied (right : ClassTree) : List Pending → ClassTree × List Pending
  | .operation op left :: rest =>
    (.operation ⟨left.extent.start, right.extent.stop⟩ op left right, rest)
  | stack => (right, stack)

def atom (r : Reader) : Read Atom :=
  match r.char? with
  | some '\\' => Escape.read r
  | some c => .ok (.literal ⟨r.hereChar, c, false⟩, r.bump)
  | none => .error (fault .classUnclosed r.here)

/-- A member or a range. A dash before a closing bracket or another dash makes no range. -/
def item (stack : List Pending) (r : Reader) : Except Fault (ClassTree × Reader) := do
  let (first, r) ← atom r
  let r := r.skipBlanks
  if r.atEnd then .error (unclosed r stack)
  else if r.char? ≠ some '-' || r.peekPastBlanks? = some ']' || r.peekPastBlanks? = some '-' then
    return (← first.toClass, r)
  else
    let r := r.advance
    if r.atEnd then .error (unclosed r stack)
    else
      let (last, r) ← atom r
      let extent : Extent := ⟨first.extent.start, last.extent.stop⟩
      let low ← first.toBound
      let high ← last.toBound
      if high.char < low.char then .error (fault .classRangeInvalid extent)
      else return (.range extent low high, r)

def operator? (r : Reader) : Option (SetOperation × Reader) :=
  match r.bumpIf "&&", r.bumpIf "--", r.bumpIf "~~" with
  | some after, _, _ => some (.inter, after)
  | _, some after, _ => some (.diff, after)
  | _, _, some after => some (.symmDiff, after)
  | _, _, _ => none

/-- Reads to the bracket that closes the outermost class. -/
def loop : Nat → List Pending → Members → Reader → Read Tree
  | 0, stack, _, r => .error (unclosed r stack)
  | fuel + 1, stack, m, r =>
    let r := r.skipBlanks
    match r.char? with
    | none => .error (unclosed r stack)
    | some '[' =>
      match if stack.isEmpty then none else named? r with
      | some (item, after) => loop fuel stack (m.push item) after
      | none =>
        match opening m r with
        | .error f => .error f
        | .ok ((frame, inner), after) => loop fuel (frame :: stack) inner after
    | some ']' =>
      match applied m.toClass stack with
      | (inner, .opened around extent negated :: outer) =>
        let after := r.bump
        let extent := after.since extent.start
        if outer.isEmpty then .ok (.bracketed extent negated inner, after)
        else loop fuel outer (around.push (.bracketed extent negated inner)) after
      | (_, rest) => .error (unclosed r rest)
    | some _ =>
      match operator? r with
      | some (op, after) =>
        let out := applied m.toClass stack
        loop fuel (.operation op out.1 :: out.2) (.none after.place) after
      | none =>
        match item stack r with
        | .error f => .error f
        | .ok (one, after) => loop fuel stack (m.push one) after

/-- A class, its open bracket being the next character. -/
def read (r : Reader) : Read Tree := loop (r.rest.length + 1) [] (.none r.place) r

end Bracket
end SourceOutline.Regex
