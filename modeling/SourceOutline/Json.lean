/-! JSON values and their compact text.
A value remembers as much as its readers ask for: the naturals among the numbers, and the texts of
those strings that are texts. Each value has one compact text. -/
namespace SourceOutline

inductive Json
  | null
  | bool (value : Bool)
  /-- `none` stands for the numbers that are no naturals. -/
  | number (value : Option Nat)
  /-- `none` stands for the strings with an unpaired surrogate. -/
  | string (text : Option String)
  | array (items : List Json)
  | object (fields : List (Option String × Json))

namespace Json

def ofNat (n : Nat) : Json := number (some n)

def ofString (s : String) : Json := string (some s)

/-- An object from its fields, in the order in which they are written. -/
def record (fields : List (String × Json)) : Json :=
  object (fields.map fun f => (some f.1, f.2))

def hexDigit (n : Nat) : Char := Nat.digitChar (n % 16)

/-- Quotes, backslashes and control characters are written by escapes. -/
def escape (c : Char) : List Char :=
  if c = '\x22' then ['\\', '\x22']
  else if c = '\\' then ['\\', '\\']
  else if c = '\x08' then ['\\', 'b']
  else if c = '\x0c' then ['\\', 'f']
  else if c = '\n' then ['\\', 'n']
  else if c = '\r' then ['\\', 'r']
  else if c = '\t' then ['\\', 't']
  else if c.toNat < 0x20 then
    ['\\', 'u', '0', '0', hexDigit (c.toNat / 16), hexDigit c.toNat]
  else [c]

/-- A text between quotes. The strings that are no texts share one text of their own. -/
def quote : Option String → List Char
  | some s => '\x22' :: (s.toList.flatMap escape ++ ['\x22'])
  | none => "\"\\ud800\"".toList

def digits (n : Nat) : List Char := Nat.toDigits 10 n

mutual

def write : Json → List Char
  | null => "null".toList
  | bool true => "true".toList
  | bool false => "false".toList
  | number (some n) => digits n
  | number none => "-1".toList
  | string s => quote s
  | array items => '[' :: (writeItems items ++ [']'])
  | object fields => '\x7b' :: (writeFields fields ++ ['\x7d'])

def writeItems : List Json → List Char
  | [] => []
  | [v] => write v
  | v :: w :: vs => write v ++ ',' :: writeItems (w :: vs)

def writeFields : List (Option String × Json) → List Char
  | [] => []
  | [(k, v)] => quote k ++ ':' :: write v
  | (k, v) :: f :: fs => quote k ++ ':' :: (write v ++ ',' :: writeFields (f :: fs))

end

/-- The text without blanks. -/
def compact (j : Json) : String := String.ofList j.write

end Json
end SourceOutline
