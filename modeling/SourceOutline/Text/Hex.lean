/-! Hexadecimal digits. -/
namespace SourceOutline.Text

def hexValue? (c : Char) : Option Nat :=
  if c.isDigit then some (c.toNat - 48)
  else if 'a' ≤ c ∧ c ≤ 'f' then some (c.toNat - 87)
  else if 'A' ≤ c ∧ c ≤ 'F' then some (c.toNat - 55)
  else none

def isHexDigit (c : Char) : Bool := (hexValue? c).isSome

/-- The number that digits spell, the highest digit first. -/
def hexNumber (ds : List Char) : Nat :=
  ds.foldl (fun n d => n * 16 + (hexValue? d).getD 0) 0

end SourceOutline.Text
