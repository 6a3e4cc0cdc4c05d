import SourceOutline.Json
import SourceOutline.Text.Hex

/-! Reading JSON texts. -/
namespace SourceOutline.Json
open Text (hexValue?)

def isSpace (c : Char) : Bool := c = ' ' || c = '\t' || c = '\n' || c = '\r'

def skipSpace (cs : List Char) : List Char := cs.dropWhile isSpace

/-- The number that four hexadecimal digits name. -/
def hex4? (a b c d : Char) : Option Nat := do
  return ((← hexValue? a) * 16 + (← hexValue? b)) * 256 + (← hexValue? c) * 16 + (← hexValue? d)

def isLeading (n : Nat) : Bool := 0xd800 ≤ n && n ≤ 0xdbff

def isTrailing (n : Nat) : Bool := 0xdc00 ≤ n && n ≤ 0xdfff

def escaped? : Char → Option Char
  | '\x22' => some '\x22'
  | '\\' => some '\\'
  | '/' => some '/'
  | 'b' => some '\x08'
  | 'f' => some '\x0c'
  | 'n' => some '\n'
  | 'r' => some '\r'
  | 't' => some '\t'
  | _ => none

/-- The rest of a string after its opening quote. `lead` is a leading surrogate that waits for its
other half; `taken` holds the characters so far, last one first, until the string is known to be no
text. -/
def readString (lead : Option Nat) (taken : Option (List Char)) :
    List Char → Option (Option String × List Char)
  | '\\' :: 'u' :: a :: b :: c :: d :: cs =>
    match hex4? a b c d with
    | none => none
    | some n =>
      match lead with
      | some m =>
        if isTrailing n then
          readString none (taken.map (Char.ofNat ((m - 0xd800) * 1024 + (n - 0xdc00) + 0x10000) :: ·)) cs
        else if isLeading n then readString (some n) none cs
        else readString none none cs
      | none =>
        if isLeading n then readString (some n) taken cs
        else if isTrailing n then readString none none cs
        else readString none (taken.map (Char.ofNat n :: ·)) cs
  | '\\' :: c :: cs =>
    match escaped? c with
    | none => none
    | some e => readString none (if lead.isSome then none else taken.map (e :: ·)) cs
  | c :: cs =>
    if c = '\x22' then
      some (if lead.isSome then none else taken.map fun t => String.ofList t.reverse, cs)
    else if c.toNat < 0x20 || c = '\\' then none
    else readString none (if lead.isSome then none else taken.map (c :: ·)) cs
  | [] => none

def digitsValue (ds : List Char) : Nat := ds.foldl (fun n d => n * 10 + (d.toNat - 48)) 0

/-- The part of a number after its integer digits; `true` when there is a fraction or exponent. -/
def readExponent : List Char → Option (Bool × List Char)
  | c :: cs =>
    if c = 'e' || c = 'E' then
      let ds := match cs with
        | '+' :: r => r
        | '-' :: r => r
        | r => r
      if (ds.takeWhile Char.isDigit).isEmpty then none else some (true, ds.dropWhile Char.isDigit)
    else some (false, c :: cs)
  | [] => some (false, [])

def readFraction : List Char → Option (Bool × List Char)
  | '.' :: cs =>
    if (cs.takeWhile Char.isDigit).isEmpty then none
    else (readExponent (cs.dropWhile Char.isDigit)).map fun r => (true, r.2)
  | cs => readExponent cs

/-- A number without sign: no zero in front of other digits. -/
def readNumber (cs : List Char) : Option (Json × List Char) :=
  match cs.takeWhile Char.isDigit with
  | [] => none
  | d :: ds =>
    if d = '0' && !ds.isEmpty then none
    else (readFraction (cs.dropWhile Char.isDigit)).map fun r =>
      (number (if r.1 then none else some (digitsValue (d :: ds))), r.2)

mutual

/-- The value at the front of a text without leading blanks. The first argument bounds the depth of
the search; the length of the text is always enough. -/
def readValue : Nat → List Char → Option (Json × List Char)
  | 0, _ => none
  | _ + 1, 'n' :: 'u' :: 'l' :: 'l' :: cs => some (null, cs)
  | _ + 1, 't' :: 'r' :: 'u' :: 'e' :: cs => some (bool true, cs)
  | _ + 1, 'f' :: 'a' :: 'l' :: 's' :: 'e' :: cs => some (bool false, cs)
  | _ + 1, '\x22' :: cs => (readString none (some []) cs).map fun r => (string r.1, r.2)
  | _ + 1, '-' :: cs => (readNumber cs).map fun r => (number none, r.2)
  | fuel + 1, '[' :: cs =>
    match skipSpace cs with
    | ']' :: r => some (array [], r)
    | r => (readItems fuel r).map fun (items, rest) => (array items, rest)
  | fuel + 1, '\x7b' :: cs =>
    match skipSpace cs with
    | '\x7d' :: r => some (object [], r)
    | r => (readFields fuel r).map fun (fields, rest) => (object fields, rest)
  | _ + 1, cs => readNumber cs

/-- The items of an array up to its closing bracket. -/
def readItems : Nat → List Char → Option (List Json × List Char)
  | 0, _ => none
  | fuel + 1, cs =>
    match readValue fuel cs with
    | none => none
    | some (v, r) =>
      match skipSpace r with
      | ']' :: rest => some ([v], rest)
      | ',' :: more => (readItems fuel (skipSpace more)).map fun (vs, rest) => (v :: vs, rest)
      | _ => none

/-- The fields of an object up to its closing brace. -/
def readFields : Nat → List Char → Option (List (Option String × Json) × List Char)
  | fuel + 1, '\x22' :: cs =>
    match readString none (some []) cs with
    | none => none
    | some (k, r) =>
      match skipSpace r with
      | ':' :: body =>
        match readValue fuel (skipSpace body) with
        | none => none
        | some (v, after) =>
          match skipSpace after with
          | '\x7d' :: rest => some ([(k, v)], rest)
          | ',' :: more =>
            (readFields fuel (skipSpace more)).map fun (fs, rest) => ((k, v) :: fs, rest)
          | _ => none
      | _ => none
  | _, _ => none

end

/-- The value that a whole text spells, blanks around it aside. -/
def parse? (text : String) : Option Json :=
  match readValue (text.length + 1) (skipSpace text.toList) with
  | some (v, rest) => if (skipSpace rest).isEmpty then some v else none
  | none => none

end SourceOutline.Json
