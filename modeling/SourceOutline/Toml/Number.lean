import SourceOutline.Toml.Key

/-! Numbers, dates and times of TOML documents. Of numbers the value is not needed, only whether they
are well formed and in range. Dates and times have one written form. -/
namespace SourceOutline.Toml

/-- Digits in which single underscores may stand between two digits. -/
def spaced (isDigit : Char → Bool) : Bool → List Char → Bool
  | afterDigit, [] => afterDigit
  | afterDigit, c :: cs =>
    if isDigit c then spaced isDigit true cs
    else c = '_' && afterDigit && spaced isDigit false cs

/-- A run of digits, without its underscores, and the rest. -/
def digits? (isDigit : Char → Bool) (cs : List Char) : Option (List Char × List Char) :=
  let isPart := fun c => isDigit c || c = '_'
  let run := cs.takeWhile isPart
  if spaced isDigit false run then some (run.filter (· != '_'), cs.dropWhile isPart) else none

def decimal (ds : List Char) : Nat := ds.foldl (fun n d => n * 10 + (d.toNat - 48)) 0

/-- Whether the digits, with the point moved by the exponent, round to infinity: the bound lies half
a unit above the greatest double. -/
def overflows (ds : List Char) (fraction : Nat) (negative : Bool) (exponent : Nat) : Bool :=
  let significant := ds.dropWhile (· = '0')
  let m := decimal significant
  let up := if negative then 0 else exponent
  let down := fraction + if negative then exponent else 0
  if significant.isEmpty then false
  else if down + 400 < significant.length + up then true
  else if significant.length + up < down + 300 then false
  else Nat.pow 10 (down - up) * (1 <<< 1024 - 1 <<< 970) ≤ m * Nat.pow 10 (up - down)

/-- The exponent of a floating number: its sign, its digits, the rest. -/
def exponent? : List Char → Option (Bool × List Char × List Char)
  | '+' :: cs => (digits? Char.isDigit cs).map fun r => (false, r.1, r.2)
  | '-' :: cs => (digits? Char.isDigit cs).map fun r => (true, r.1, r.2)
  | cs => (digits? Char.isDigit cs).map fun r => (false, r.1, r.2)

def isExponentMark (c : Char) : Bool := c = 'e' || c = 'E'

/-- Only positive numbers may not be too great. -/
def floatEnd (minus : Bool) (ds : List Char) (fraction : Nat) (cs : List Char) :
    Option (List Char) :=
  match cs with
  | [] => if !minus && overflows ds fraction false 0 then none else some []
  | c :: rest =>
    if isExponentMark c then
      match exponent? rest with
      | none => none
      | some (negative, es, after) =>
        if !minus && overflows ds fraction negative (decimal es) then none else some after
    else if !minus && overflows ds fraction false 0 then none
    else some (c :: rest)

/-- Integers have 64 bits. -/
def inRange (minus : Bool) (n : Nat) : Bool := n < 1 <<< 63 || (minus && n = 1 <<< 63)

/-- The digits before the point: one zero, or a run that starts with no zero. -/
def integral? : List Char → Option (List Char × List Char)
  | '0' :: cs => some (['0'], cs)
  | cs => digits? Char.isDigit cs

def unsigned? (minus : Bool) (cs : List Char) : Option (List Char) :=
  match integral? cs with
  | none => none
  | some (ds, '.' :: rest) =>
    match digits? Char.isDigit rest with
    | none => none
    | some (fs, after) => floatEnd minus (ds ++ fs) fs.length after
  | some (ds, c :: rest) =>
    if isExponentMark c then floatEnd minus ds 0 (c :: rest)
    else if inRange minus (decimal ds) then some (c :: rest)
    else none
  | some (ds, []) => if inRange minus (decimal ds) then some [] else none

def special? : List Char → Option (List Char)
  | 'i' :: 'n' :: 'f' :: cs => some cs
  | 'n' :: 'a' :: 'n' :: cs => some cs
  | _ => none

def isOctal (c : Char) : Bool := '0' ≤ c && c ≤ '7'

def isBinary (c : Char) : Bool := c = '0' || c = '1'

def baseNumber? (base : Nat) (isDigit : Char → Bool) (cs : List Char) : Option (List Char) :=
  match digits? isDigit cs with
  | none => none
  | some (ds, rest) =>
    let n := ds.foldl (fun n d => n * base + (Text.hexValue? d).getD 0) 0
    if inRange false n then some rest else none

def number? : List Char → Option (List Char)
  | '0' :: 'x' :: cs => baseNumber? 16 Text.isHexDigit cs
  | '0' :: 'o' :: cs => baseNumber? 8 isOctal cs
  | '0' :: 'b' :: cs => baseNumber? 2 isBinary cs
  | '+' :: cs => (special? cs).or (unsigned? false cs)
  | '-' :: cs => (special? cs).or (unsigned? true cs)
  | cs => (special? cs).or (unsigned? false cs)

/-- A number of a fixed count of digits within bounds. -/
def field? (count least most : Nat) (cs : List Char) : Option (Nat × List Char) :=
  let ds := cs.take count
  let n := decimal ds
  if ds.length = count && ds.all Char.isDigit && least ≤ n && n ≤ most then
    some (n, cs.drop count)
  else none

def mark? (mark : Char) : List Char → Option (List Char)
  | c :: cs => if c = mark then some cs else none
  | [] => none

/-- Whether digits of a fixed count come, and then a mark. -/
def startsField (count : Nat) (mark : Char) (cs : List Char) : Bool :=
  (cs.take count).length = count && (cs.take count).all Char.isDigit
    && (cs.drop count).head? = some mark

def padded (width n : Nat) : String :=
  let ds := Nat.toDigits 10 n
  String.ofList (List.replicate (width - ds.length) '0' ++ ds)

def isLeapYear (year : Nat) : Bool := year % 4 = 0 && (year % 100 != 0 || year % 400 = 0)

def daysIn (year month : Nat) : Nat :=
  if month = 2 then if isLeapYear year then 29 else 28
  else if month = 4 || month = 6 || month = 9 || month = 11 then 30
  else 31

/-- What is left after a date, and the date in its one written form. -/
def date? (cs : List Char) : Option (String × List Char) := do
  let (year, cs) ← field? 4 0 9999 cs
  let (month, cs) ← field? 2 1 12 (← mark? '-' cs)
  let (day, cs) ← field? 2 1 (daysIn year month) (← mark? '-' cs)
  return (s!"{padded 4 year}-{padded 2 month}-{padded 2 day}", cs)

/-- Parts of a second, when there are any. Nine digits count, and zeros at their end do not. -/
def fraction : List Char → String × List Char
  | '.' :: cs =>
    let ds := cs.takeWhile Char.isDigit
    if ds.isEmpty then ("", '.' :: cs)
    else
      let kept := ((ds.take 9).reverse.dropWhile (· = '0')).reverse
      (if kept.isEmpty then "" else "." ++ String.ofList kept, cs.dropWhile Char.isDigit)
  | cs => ("", cs)

def time? (cs : List Char) : Option (String × List Char) := do
  let (hour, cs) ← field? 2 0 23 cs
  let (minute, cs) ← field? 2 0 59 (← mark? ':' cs)
  let (second, cs) ← field? 2 0 60 (← mark? ':' cs)
  let (part, cs) := fraction cs
  return (s!"{padded 2 hour}:{padded 2 minute}:{padded 2 second}{part}", cs)

/-- An offset of zero has a plus sign. -/
def offset? (sign : String) (cs : List Char) : Option (String × List Char) := do
  let (hours, cs) ← field? 2 0 23 cs
  let (minutes, cs) ← field? 2 0 59 (← mark? ':' cs)
  let sign := if hours = 0 && minutes = 0 then "+" else sign
  return (s!"{sign}{padded 2 hours}:{padded 2 minutes}", cs)

def zone? : List Char → Option (String × List Char)
  | 'Z' :: cs => some ("Z", cs)
  | 'z' :: cs => some ("Z", cs)
  | '+' :: cs => offset? "+" cs
  | '-' :: cs => offset? "-" cs
  | cs => some ("", cs)

def isTimeMark (c : Char) : Bool := c = 'T' || c = 't' || c = ' '

/-- A date, and a time of that day when one follows. -/
def dateTime? (cs : List Char) : Option (String × List Char) :=
  match date? cs with
  | none => none
  | some (date, []) => some (date, [])
  | some (date, c :: rest) =>
    if isTimeMark c && startsField 2 ':' rest then do
      let (time, rest) ← time? rest
      let (zone, rest) ← zone? rest
      return (date ++ "T" ++ time ++ zone, rest)
    else some (date, c :: rest)

/-- A number, or a date or time in its written form, and the text after it. -/
def moment? (cs : List Char) : Option (Option String × List Char) :=
  if startsField 4 '-' cs then (dateTime? cs).map fun r => (some r.1, r.2)
  else if startsField 2 ':' cs then (time? cs).map fun r => (some r.1, r.2)
  else (number? cs).map fun rest => (none, rest)

end SourceOutline.Toml
