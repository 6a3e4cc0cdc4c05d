import SourceOutline.Text.Printable

/-! Texts between quotes, with escapes for all that cannot be shown as it is. -/
namespace SourceOutline.Text

/-- The code point in hexadecimal between braces. -/
def codePoint (c : Char) : String :=
  "\\u\x7b" ++ String.ofList (Nat.toDigits 16 c.toNat) ++ "\x7d"

def shown (c : Char) : String :=
  if c = '\x00' then "\\0"
  else if c = '\t' then "\\t"
  else if c = '\r' then "\\r"
  else if c = '\n' then "\\n"
  else if c = '\x22' then "\\\x22"
  else if c = '\\' then "\\\\"
  else if isExtending c || !isPrintable c then codePoint c
  else String.singleton c

def quoted (s : String) : String :=
  "\x22" ++ s.toList.foldl (fun out c => out ++ shown c) "" ++ "\x22"

end SourceOutline.Text
