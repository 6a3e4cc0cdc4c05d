/-! Texts without control characters and control sequences, as a terminal reads them. -/
namespace SourceOutline.Text

/-- How far a control sequence has been read. -/
inductive Control
  /-- No sequence is open. -/
  | ground
  | escape
  | escapeIntermediate
  /-- A sequence that a letter ends. -/
  | csi
  | dcsEntry
  | dcsParameter
  | dcsIntermediate
  /-- A string that only its terminator ends. -/
  | string
  /-- An operating system command, which a bell ends too. -/
  | command
  deriving DecidableEq, Repr

namespace Control

def isIntermediate (b : Nat) : Bool := 0x20 ≤ b && b ≤ 0x2f

def isParameter (b : Nat) : Bool := 0x30 ≤ b && b ≤ 0x3f

def isFinal (b : Nat) : Bool := 0x40 ≤ b && b ≤ 0x7e

/-- Two characters break off any sequence, and one opens the next. -/
def jump? (b : Nat) : Option Control :=
  if b = 0x18 || b = 0x1a then some ground
  else if b = 0x1b then some escape
  else none

def afterEscape (b : Nat) : Control :=
  if isIntermediate b then escapeIntermediate
  else if b = 0x5b then csi
  else if b = 0x5d then command
  else if b = 0x50 then dcsEntry
  else if b = 0x58 || b = 0x5e || b = 0x5f then string
  else if isParameter b || isFinal b then ground
  else escape

/-- The state after an ASCII character. -/
def next (s : Control) (b : Nat) : Control :=
  match jump? b with
  | some t => t
  | none =>
    match s with
    | ground => ground
    | escape => afterEscape b
    | escapeIntermediate => if isParameter b || isFinal b then ground else s
    | csi => if isFinal b then ground else s
    | dcsEntry =>
      if isIntermediate b then dcsIntermediate
      else if isParameter b then dcsParameter
      else if isFinal b then string
      else s
    | dcsParameter =>
      if isIntermediate b then dcsIntermediate
      else if 0x3c ≤ b && b ≤ 0x3f then string
      else if isFinal b then string
      else s
    | dcsIntermediate => if isParameter b || isFinal b then string else s
    | string => s
    | command => if b = 0x07 then ground else s

/-- The state after another character. One of its bytes may be the terminator of a string. -/
def nextWide (s : Control) (c : Char) : Control :=
  if s = string && (String.utf8EncodeChar c).any (· = 0x9c) then ground else s

def isSpacing (b : Nat) : Bool := b = 0x09 || b = 0x0a || b = 0x0c || b = 0x0d

/-- Whether a state lets spacing through. -/
def keepsSpacing : Control → Bool
  | ground | escape | escapeIntermediate | csi => true
  | _ => false

/-- Whether an ASCII character is shown in a state. -/
def shows (s : Control) (b : Nat) : Bool :=
  (s = ground && 0x20 ≤ b && b ≤ 0x7e) || (s.keepsSpacing && isSpacing b)

end Control

/-- What is shown of a text, on top of `shown`, last character first. In a run of shown characters
(`running`) an open sequence rests: it goes on with the first character that the run cannot have. -/
def visibleFrom (running : Bool) (s : Control) (shown : List Char) : List Char → List Char
  | [] => shown.reverse
  | c :: cs =>
    let b := c.toNat
    if 0x80 ≤ b then
      if running || s = .ground then visibleFrom true .ground (c :: shown) cs
      else visibleFrom false (s.nextWide c) shown cs
    else if running && Control.ground.shows b then visibleFrom true s (c :: shown) cs
    else
      let s := if running then (Control.jump? b).getD s else s
      if s.shows b then visibleFrom true (s.next b) (c :: shown) cs
      else visibleFrom false (s.next b) shown cs

/-- A text without control sequences, and without control characters other than spacing. -/
def visible (s : String) : String := String.ofList (visibleFrom false .ground [] s.toList)

example : visible "a\x1b[1;31mb\x07c\n" = "abc\n" := by decide +kernel

end SourceOutline.Text
