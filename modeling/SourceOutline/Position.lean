/-! Places in a source text.
Lines and columns count from one and offsets count bytes. A tab moves to the next stop, one past a
multiple of four columns. -/
namespace SourceOutline

structure Position where
  offset : Nat
  line : Nat
  column : Nat
  deriving DecidableEq, Repr, Inhabited

namespace Position

def start : Position := ⟨0, 1, 1⟩

def tabWidth : Nat := 4

/-- The place after `c`, when `c` stands at `p`. -/
def advance (p : Position) (c : Char) : Position :=
  if c = '\n' then ⟨p.offset + 1, p.line + 1, 1⟩
  else if c = '\t' then
    ⟨p.offset + 1, p.line, p.column + tabWidth - (p.column - 1) % tabWidth⟩
  else ⟨p.offset + c.utf8Size, p.line, p.column + 1⟩

@[simp] theorem advance_newline (p : Position) :
    p.advance '\n' = ⟨p.offset + 1, p.line + 1, 1⟩ := rfl

@[simp] theorem advance_tab (p : Position) :
    p.advance '\t' = ⟨p.offset + 1, p.line, p.column + tabWidth - (p.column - 1) % tabWidth⟩ := rfl

theorem advance_offset (p : Position) (c : Char) :
    (p.advance c).offset = p.offset + c.utf8Size := by
  unfold advance
  split
  · next h => subst h; rfl
  · split
    · next h => subst h; rfl
    · rfl

/-- The place after a text that starts at `p`. -/
def advanceAll (p : Position) (cs : List Char) : Position := cs.foldl advance p

@[simp] theorem advanceAll_nil (p : Position) : p.advanceAll [] = p := rfl

@[simp] theorem advanceAll_cons (p : Position) (c : Char) (cs : List Char) :
    p.advanceAll (c :: cs) = (p.advance c).advanceAll cs := rfl

theorem advanceAll_append (p : Position) (cs ds : List Char) :
    p.advanceAll (cs ++ ds) = (p.advanceAll cs).advanceAll ds := by
  simp [advanceAll, List.foldl_append]

def text (p : Position) : String := s!"{p.line}:{p.column}"

end Position

/-- A stretch of source text from `start` up to, not including, `stop`. -/
structure Span where
  start : Position
  stop : Position
  deriving DecidableEq, Repr, Inhabited

namespace Span

def point (p : Position) : Span := ⟨p, p⟩

/-- The stretch between two places, given in source order. -/
def between? (start stop : Position) : Option Span :=
  if start.offset ≤ stop.offset then some ⟨start, stop⟩ else none

@[simp] theorem between?_self (p : Position) : between? p p = some (point p) := by
  simp [between?, point]

def isEmpty (s : Span) : Bool := s.start.offset == s.stop.offset

@[simp] theorem isEmpty_point (p : Position) : (point p).isEmpty = true := by
  simp [point, isEmpty]

/-- The line is written once when the stretch stays on it. -/
def text (s : Span) : String :=
  if s.start.line = s.stop.line then
    s!"{s.start.line}:{s.start.column}-{s.stop.column}"
  else s!"{s.start.line}:{s.start.column}-{s.stop.line}:{s.stop.column}"

end Span
end SourceOutline
