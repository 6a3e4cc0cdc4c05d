/-! Texts brought to a width by blanks. Widths count characters. -/
namespace SourceOutline.Text

def blanksOf (n : Nat) : String := String.ofList (List.replicate n ' ')

/-- Blanks follow the text. -/
def padRight (width : Nat) (s : String) : String := s ++ blanksOf (width - s.length)

/-- Blanks precede the text. -/
def padLeft (width : Nat) (s : String) : String := blanksOf (width - s.length) ++ s

/-- Blanks stand on both sides, an odd one after the text. -/
def centre (width : Nat) (s : String) : String :=
  let room := width - s.length
  blanksOf (room / 2) ++ s ++ blanksOf (room - room / 2)

/-- The text without the characters beyond a width. -/
def cut (width : Nat) (s : String) : String := String.ofList (s.toList.take width)

end SourceOutline.Text
