import SourceOutline.Text.Hex

/-! Blanks, comments, strings and keys of TOML documents.
A reader answers with what it read and the text after it, and refuses by `none`. -/
namespace SourceOutline.Toml

def isSpace (c : Char) : Bool := c = ' ' || c = '\t'

def skipSpace (cs : List Char) : List Char := cs.dropWhile isSpace

/-- Characters that comments and strings may hold: no control characters but the tab. -/
def isPlain (c : Char) : Bool := c = '\t' || (0x20 ≤ c.toNat && c.toNat != 0x7f)

def newline? : List Char → Option (List Char)
  | '\n' :: cs => some cs
  | '\r' :: '\n' :: cs => some cs
  | _ => none

/-- The text without a comment in front. -/
def skipComment : List Char → List Char
  | '#' :: cs => cs.dropWhile isPlain
  | cs => cs

/-- The text after the end of the line, which only blanks and a comment may precede. -/
def lineEnd? (cs : List Char) : Option (List Char) :=
  match skipComment (skipSpace cs) with
  | [] => some []
  | rest => newline? rest

/-- The text without blanks, line ends and comments in front. -/
def skipFiller (inComment : Bool) : List Char → List Char
  | '\n' :: cs => skipFiller false cs
  | '\r' :: '\n' :: cs => skipFiller false cs
  | c :: cs =>
    if inComment then if isPlain c then skipFiller true cs else c :: cs
    else if c = '#' then skipFiller true cs
    else if isSpace c then skipFiller false cs
    else c :: cs
  | [] => []

def isScalar (n : Nat) : Bool := n < 0xd800 || (0xdfff < n && n < 0x110000)

/-- The character that a number of hexadecimal digits names. -/
def hexChar? (count : Nat) (cs : List Char) : Option (Char × List Char) :=
  let ds := cs.take count
  let n := Text.hexNumber ds
  if ds.length = count && ds.all Text.isHexDigit && isScalar n then
    some (Char.ofNat n, cs.drop count)
  else none

/-- The character that an escape names. -/
def escape? : List Char → Option (Char × List Char)
  | 'b' :: cs => some ('\x08', cs)
  | 't' :: cs => some ('\t', cs)
  | 'n' :: cs => some ('\n', cs)
  | 'f' :: cs => some ('\x0c', cs)
  | 'r' :: cs => some ('\r', cs)
  | '\x22' :: cs => some ('\x22', cs)
  | '\\' :: cs => some ('\\', cs)
  | 'u' :: cs => hexChar? 4 cs
  | 'U' :: cs => hexChar? 8 cs
  | _ => none

/-- The rest of a string after its opening quote. `taken` holds the characters so far, last one
first. -/
def basic : Nat → List Char → List Char → Option (String × List Char)
  | 0, _, _ => none
  | fuel + 1, taken, cs =>
    match cs with
    | '\x22' :: rest => some (String.ofList taken.reverse, rest)
    | '\\' :: rest =>
      match escape? rest with
      | some (c, rest) => basic fuel (c :: taken) rest
      | none => none
    | c :: rest => if isPlain c then basic fuel (c :: taken) rest else none
    | [] => none

/-- The rest of a string without escapes after its opening apostrophe. -/
def literal (cs : List Char) : Option (String × List Char) :=
  let isBody := fun c => isPlain c && c != '\x27'
  match cs.dropWhile isBody with
  | '\x27' :: rest => some (String.ofList (cs.takeWhile isBody), rest)
  | _ => none

/-- Of a run of quotes that ends a string of many lines, those in front of the last three belong to
the string, two at most. -/
def closing? (quote : Char) (taken cs : List Char) : Option (String × List Char) :=
  let run := (cs.takeWhile (· == quote)).length
  if run < 3 then none
  else
    let extra := min (run - 3) 2
    some (String.ofList ((List.replicate extra quote ++ taken).reverse), cs.drop (extra + 3))

/-- The rest of a string of many lines. After a backslash at the end of a line, blanks and line ends
are skipped. -/
def basicLines : Nat → Bool → List Char → List Char → Option (String × List Char)
  | 0, _, _, _ => none
  | fuel + 1, skipping, taken, cs =>
    match closing? '\x22' taken cs with
    | some done => some done
    | none =>
      match newline? cs with
      | some rest => basicLines fuel skipping (if skipping then taken else '\n' :: taken) rest
      | none =>
        match cs with
        | [] => none
        | '\\' :: rest =>
          if (newline? (skipSpace rest)).isSome then basicLines fuel true taken rest
          else
            match escape? rest with
            | some (c, rest) => basicLines fuel false (c :: taken) rest
            | none => none
        | c :: rest =>
          if skipping && isSpace c then basicLines fuel true taken rest
          else if isPlain c then basicLines fuel false (c :: taken) rest
          else none

/-- The rest of a string of many lines without escapes. -/
def literalLines : Nat → List Char → List Char → Option (String × List Char)
  | 0, _, _ => none
  | fuel + 1, taken, cs =>
    match closing? '\x27' taken cs with
    | some done => some done
    | none =>
      match newline? cs with
      | some rest => literalLines fuel ('\n' :: taken) rest
      | none =>
        match cs with
        | [] => none
        | c :: rest => if isPlain c then literalLines fuel (c :: taken) rest else none

/-- A line end right after the opening does not count. -/
def skipNewline (cs : List Char) : List Char := (newline? cs).getD cs

def string? : List Char → Option (String × List Char)
  | '\x22' :: '\x22' :: '\x22' :: cs => basicLines (cs.length + 1) false [] (skipNewline cs)
  | '\x27' :: '\x27' :: '\x27' :: cs => literalLines (cs.length + 1) [] (skipNewline cs)
  | '\x22' :: cs => basic (cs.length + 1) [] cs
  | '\x27' :: cs => literal cs
  | _ => none

def isBareKey (c : Char) : Bool := c.isAlphanum || c = '-' || c = '_'

/-- One part of a key. -/
def keyPart? (cs : List Char) : Option (String × List Char) :=
  match cs with
  | '\x22' :: rest => basic (rest.length + 1) [] rest
  | '\x27' :: rest => literal rest
  | _ =>
    if (cs.takeWhile isBareKey).isEmpty then none
    else some (String.ofList (cs.takeWhile isBareKey), cs.dropWhile isBareKey)

/-- Values nest, and keys have parts, fewer times than this. -/
def depthLimit : Nat := 80

/-- The parts of a key with points between them. -/
def keyParts : Nat → List String → List Char → Option (List String × List Char)
  | 0, _, _ => none
  | room + 1, parts, cs =>
    match keyPart? (skipSpace cs) with
    | none => none
    | some (part, rest) =>
      match skipSpace rest with
      | '.' :: more => keyParts room (part :: parts) more
      | rest => some ((part :: parts).reverse, rest)

def key? (cs : List Char) : Option (List String × List Char) := keyParts (depthLimit - 1) [] cs

end SourceOutline.Toml
