import SourceOutline.Text.Blank
import SourceOutline.Text.Numeric
import SourceOutline.Text.Units
import SourceOutline.Token
import SourceOutline.Token.Vocabulary

/-! The shapes of tokens, comments and directives.
Each reader splits a text into what it takes and what it leaves. Places in the text play no part
here. -/
namespace SourceOutline

/-- What can be wrong with the text at hand. -/
inductive Fault
  | invalidCharacter (c : Char)
  | unterminatedLiteral
  | unterminatedComment
  | identifierTooLong (length : Nat)
  deriving DecidableEq, Repr

/-- A reading of the front of a text: what it is, or what is wrong with it, and where it ends. -/
structure Scan (α : Type) where
  outcome : Except Fault α
  taken : List Char
  rest : List Char

namespace Scan
variable {α : Type}

/-- The reading takes the front of `cs`. -/
def Splits (s : Scan α) (cs : List Char) : Prop := s.taken ++ s.rest = cs

theorem Splits.length_rest {s : Scan α} {cs : List Char} (h : s.Splits cs) :
    s.rest.length = cs.length - s.taken.length := by
  rw [← h, List.length_append]
  omega

end Scan

namespace Lexeme
open Text

def isIdentifierStart (c : Char) : Bool := c = '_' || c = '$' || isAlphabetic c

def isIdentifierPart (c : Char) : Bool := c = '_' || c = '$' || isAlphanumeric c

theorem isIdentifierPart_of_start {c : Char} (h : isIdentifierStart c = true) :
    isIdentifierPart c = true := by
  simp only [isIdentifierStart, isIdentifierPart, isAlphanumeric, Bool.or_eq_true] at h ⊢
  exact h.imp_right Or.inl

/-- A backslash at the end of a line joins the next line to it. -/
def spliceLength : List Char → Nat
  | '\\' :: '\n' :: _ => 2
  | '\\' :: '\r' :: '\n' :: _ => 3
  | _ => 0

def isBlankChar (c : Char) : Bool :=
  c = '\n' || c = ' ' || c = '\t' || c = '\r' || c = '\x0b' || c = '\x0c'

def blankUnit : List Char → Nat
  | [] => 0
  | c :: cs => if isBlankChar c then 1 else spliceLength (c :: cs)

/-- The blanks and joined lines at the front of a text. -/
def blanks (cs : List Char) : List Char × List Char := spanUnits blankUnit cs

/-- Whether blanks hold the end of a line, joined lines aside. -/
def endsLine : List Char → Bool
  | '\\' :: '\n' :: cs => endsLine cs
  | '\\' :: '\r' :: '\n' :: cs => endsLine cs
  | c :: cs => c = '\n' || endsLine cs
  | [] => false

def lineUnit : List Char → Nat
  | [] => 0
  | c :: cs =>
    if c = '\n' then 0
    else if c = '\r' && cs.head? = some '\n' then 0
    else max 1 (spliceLength (c :: cs))

/-- The rest of a line, joined lines included and its end excluded. -/
def line (cs : List Char) : List Char × List Char := spanUnits lineUnit cs

/-- What a text starts with, when that is no token. -/
def triviaKind? (lineStart : Bool) : List Char → Option TriviaKind
  | '/' :: '/' :: _ => some .lineComment
  | '/' :: '*' :: _ => some .blockComment
  | '#' :: _ => if lineStart then some .directive else none
  | _ => none

/-- A comment from its opening up to its closing mark. -/
def blockComment (cs : List Char) : Scan TriviaKind :=
  let body := spanUnits (untilUnit ['*', '/']) (cs.drop 2)
  if body.2.isEmpty then ⟨.error .unterminatedComment, cs, []⟩
  else ⟨.ok .blockComment, cs.take 2 ++ (body.1 ++ body.2.take 2), body.2.drop 2⟩

/-- A comment or directive of a known kind. -/
def trivia (kind : TriviaKind) (cs : List Char) : Scan TriviaKind :=
  match kind with
  | .blockComment => blockComment cs
  | _ => ⟨.ok kind, (line cs).1, (line cs).2⟩

def isExponentMark (c : Char) : Bool := c = 'e' || c = 'E' || c = 'p' || c = 'P'

def isSign (c : Char) : Bool := c = '+' || c = '-'

def numberUnit : List Char → Nat
  | [] => 0
  | c :: cs =>
    if isExponentMark c && cs.head?.any isSign then 2
    else if c = '\x27' && cs.head?.any Char.isAlphanum then 1
    else if c.isAlphanum || c = '_' || c = '.' then 1
    else 0

/-- A number is floating when it has a point or an exponent in front of its first underscore. -/
def numberKind (image : List Char) : TokenKind :=
  let body := (image.map Char.toLower).takeWhile (· != '_')
  let mark := if ['0', 'x'].isPrefixOf body then 'p' else 'e'
  if body.contains '.' || body.contains mark then .floating else .integer

def number (c : Char) (cs : List Char) : Scan TokenKind :=
  let body := spanUnits numberUnit cs
  ⟨.ok (numberKind (c :: body.1)), c :: body.1, body.2⟩

def startsNumber (c : Char) (cs : List Char) : Bool :=
  c.isDigit || (c = '.' && cs.head?.any Char.isDigit)

/-- The identifier that may follow a literal directly. -/
def suffix (cs : List Char) : List Char × List Char :=
  if cs.head?.any isIdentifierStart then
    (cs.takeWhile isIdentifierPart, cs.dropWhile isIdentifierPart)
  else ([], cs)

/-- A backslash takes the character after it along. -/
def quotedUnit (quote : Char) : List Char → Nat
  | [] => 0
  | c :: _ => if c = '\n' then 0 else if c = '\\' then 2 else if c = quote then 0 else 1

def literalKind (quote : Char) : TokenKind :=
  if quote = '\x22' then .string else .character

/-- The rest of a literal after its opening: the text up to the closing quote on the same line, and
a suffix. -/
def quoted (opening : List Char) (quote : Char) (cs : List Char) : Scan TokenKind :=
  let body := spanUnits (quotedUnit quote) cs
  match body.2 with
  | [] => ⟨.error .unterminatedLiteral, opening ++ body.1, []⟩
  | c :: r =>
    if c = quote then ⟨.ok (literalKind quote), opening ++ (body.1 ++ c :: (suffix r).1), (suffix r).2⟩
    else ⟨.error .unterminatedLiteral, opening ++ body.1, c :: r⟩

def delimiterLimit : Nat := 16

def isDelimiterChar (c : Char) : Bool :=
  !isBlank c && c != '(' && c != ')' && c != '\\' && c != '\x22'

/-- The delimiter of a raw literal. It stops growing once it has used up the limit of bytes. -/
def delimiter (used : Nat) : List Char → List Char × List Char
  | [] => ([], [])
  | c :: cs =>
    if isDelimiterChar c && used < delimiterLimit then
      let d := delimiter (used + c.utf8Size) cs
      (c :: d.1, d.2)
    else ([], c :: cs)

/-- The text of a raw literal up to its closing mark, and a suffix. -/
def rawBody (opening closing cs : List Char) : Scan TokenKind :=
  let body := spanUnits (untilUnit closing) cs
  if body.2.isEmpty then ⟨.error .unterminatedLiteral, opening, cs⟩
  else
    let s := suffix (body.2.drop closing.length)
    ⟨.ok .string, opening ++ (body.1 ++ (closing ++ s.1)), s.2⟩

/-- The rest of a raw literal after its opening. It ends where its delimiter stands again between a
parenthesis and a quote. -/
def raw (opening cs : List Char) : Scan TokenKind :=
  let d := delimiter 0 cs
  match d.2 with
  | '(' :: r => rawBody (opening ++ (d.1 ++ ['('])) (')' :: (d.1 ++ ['\x22'])) r
  | r => ⟨.error .unterminatedLiteral, opening ++ d.1, r⟩

def quotedMarks : List (List Char) := [['L'], ['u'], ['U'], ['u', '8']]

def rawMarks : List (List Char) := [['R'], ['L', 'R'], ['u', 'R'], ['U', 'R'], ['u', '8', 'R']]

def identifierLimit : Nat := 1024

def wordKind (word : List Char) : Except Fault TokenKind :=
  if word.length > identifierLimit then .error (.identifierTooLong word.length)
  else if Vocabulary.isKeyword (String.ofList word) then .ok .keyword
  else .ok .identifier

def isQuote (c : Char) : Bool := c = '\x22' || c = '\x27'

/-- An identifier or keyword, or the literal that a word right in front of a quote belongs to. -/
def word (cs : List Char) : Scan TokenKind :=
  let w := cs.takeWhile isIdentifierPart
  match cs.dropWhile isIdentifierPart with
  | [] => ⟨wordKind w, w, []⟩
  | q :: r =>
    if isQuote q && quotedMarks.contains w then quoted (w ++ [q]) q r
    else if q = '\x22' && rawMarks.contains w then raw (w ++ [q]) r
    else ⟨wordKind w, w, q :: r⟩

/-- The scope separator and the other punctuators, with the kind of each. -/
def symbols : List (List Char × TokenKind) :=
  (['(' ], .leftParen) :: ([')'], .rightParen) :: ([':', ':'], .scope) ::
    Vocabulary.punctuators.map fun p => (p.toList, .punctuator)

def symbol (c : Char) (cs : List Char) : Scan TokenKind :=
  match symbols.find? fun s => s.1.isPrefixOf (c :: cs) with
  | some s => ⟨.ok s.2, (c :: cs).take s.1.length, (c :: cs).drop s.1.length⟩
  | none => ⟨.error (.invalidCharacter c), [], c :: cs⟩

/-- The token at the front of a text that starts with neither blanks nor trivia. -/
def token (c : Char) (cs : List Char) : Scan TokenKind :=
  if startsNumber c cs then number c cs
  else if isIdentifierStart c then word (c :: cs)
  else if isQuote c then quoted [c] c cs
  else symbol c cs

theorem blanks_append (cs : List Char) : (blanks cs).1 ++ (blanks cs).2 = cs :=
  spanUnits_append _ _

theorem line_append (cs : List Char) : (line cs).1 ++ (line cs).2 = cs :=
  spanUnits_append _ _

@[simp] theorem suffix_append (cs : List Char) : (suffix cs).1 ++ (suffix cs).2 = cs := by
  unfold suffix
  split
  · exact List.takeWhile_append_dropWhile
  · rfl

@[simp] theorem delimiter_append (used : Nat) (cs : List Char) :
    (delimiter used cs).1 ++ (delimiter used cs).2 = cs := by
  induction cs generalizing used with
  | nil => rfl
  | cons c cs ih =>
    unfold delimiter
    split
    · simp [ih]
    · rfl

theorem blockComment_splits (cs : List Char) : (blockComment cs).Splits cs := by
  unfold blockComment
  dsimp only
  split
  · simp [Scan.Splits]
  · simp [Scan.Splits, List.append_assoc]

theorem trivia_splits (kind : TriviaKind) (cs : List Char) : (trivia kind cs).Splits cs := by
  unfold trivia
  split
  · exact blockComment_splits cs
  · exact line_append cs

theorem number_splits (c : Char) (cs : List Char) : (number c cs).Splits (c :: cs) := by
  simp [number, Scan.Splits]

theorem quoted_splits (opening : List Char) (quote : Char) (cs : List Char) :
    (quoted opening quote cs).Splits (opening ++ cs) := by
  have h := spanUnits_append (quotedUnit quote) cs
  unfold quoted
  dsimp only
  split
  · next heq => rw [heq] at h; simpa [Scan.Splits] using h
  · next c r heq =>
    rw [heq] at h
    split
    · simpa [Scan.Splits] using h
    · simpa [Scan.Splits] using h

theorem rawBody_splits (opening closing cs : List Char) :
    (rawBody opening closing cs).Splits (opening ++ cs) := by
  unfold rawBody
  dsimp only
  split
  · rfl
  · next hne =>
    have hz := unit_spanUnits_snd (untilUnit closing) cs (by simpa using hne)
    simp only [Scan.Splits, List.append_assoc, suffix_append, append_drop_of_untilUnit hz,
      spanUnits_append]

theorem raw_splits (opening cs : List Char) : (raw opening cs).Splits (opening ++ cs) := by
  have hd := delimiter_append 0 cs
  unfold raw
  dsimp only
  split
  · next r heq =>
    rw [heq] at hd
    have hb := rawBody_splits (opening ++ ((delimiter 0 cs).1 ++ ['(']))
      (')' :: ((delimiter 0 cs).1 ++ ['\x22'])) r
    rwa [List.append_assoc, List.append_assoc, List.singleton_append, hd] at hb
  · simp [Scan.Splits, hd]

theorem word_splits (cs : List Char) : (word cs).Splits cs := by
  have h := List.takeWhile_append_dropWhile (p := isIdentifierPart) (l := cs)
  unfold word
  dsimp only
  split
  · next heq => rw [heq] at h; exact h
  · next q r heq =>
    rw [heq] at h
    split
    · have hq := quoted_splits (cs.takeWhile isIdentifierPart ++ [q]) q r
      rwa [List.append_assoc, List.singleton_append, h] at hq
    · split
      · have hq := raw_splits (cs.takeWhile isIdentifierPart ++ [q]) r
        rwa [List.append_assoc, List.singleton_append, h] at hq
      · exact h

theorem symbol_splits (c : Char) (cs : List Char) : (symbol c cs).Splits (c :: cs) := by
  unfold symbol Scan.Splits
  split
  · exact List.take_append_drop _ _
  · rfl

/-- Nothing is lost and nothing moves. -/
theorem token_splits (c : Char) (cs : List Char) : (token c cs).Splits (c :: cs) := by
  unfold token
  split
  · exact number_splits c cs
  · split
    · exact word_splits (c :: cs)
    · split
      · exact quoted_splits [c] c cs
      · exact symbol_splits c cs

theorem quoted_taken_ne_nil {opening : List Char} (h : opening ≠ []) (quote : Char)
    (cs : List Char) : (quoted opening quote cs).taken ≠ [] := by
  unfold quoted
  dsimp only
  split
  · simp [h]
  · split <;> simp [h]

theorem raw_taken_ne_nil {opening : List Char} (h : opening ≠ []) (cs : List Char) :
    (raw opening cs).taken ≠ [] := by
  unfold raw rawBody
  dsimp only
  split
  · split <;> simp [h]
  · simp [h]

theorem word_taken_ne_nil {c : Char} (h : isIdentifierStart c = true) (cs : List Char) :
    (word (c :: cs)).taken ≠ [] := by
  have hw : (c :: cs).takeWhile isIdentifierPart ≠ [] := by
    simp [isIdentifierPart_of_start h]
  unfold word
  dsimp only
  split
  · exact hw
  · split
    · exact quoted_taken_ne_nil (by simp) _ _
    · split
      · exact raw_taken_ne_nil (by simp) _
      · exact hw

theorem symbols_ne_nil : ∀ s ∈ symbols, s.1 ≠ [] := by decide

/-- Every token has characters. -/
theorem token_taken_ne_nil {c : Char} {cs : List Char} {kind : TokenKind}
    (h : (token c cs).outcome = .ok kind) : (token c cs).taken ≠ [] := by
  unfold token at h ⊢
  split
  · simp [number]
  · next hn =>
    rw [if_neg hn] at h
    split
    · next hi => exact word_taken_ne_nil hi cs
    · next hi =>
      rw [if_neg hi] at h
      split
      · exact quoted_taken_ne_nil (by simp) _ _
      · next hq =>
        rw [if_neg hq] at h
        unfold symbol at h ⊢
        split
        · next s hs =>
          have hne := symbols_ne_nil s (List.mem_of_find?_eq_some hs)
          simp [List.take_eq_nil_iff, hne]
        · next hs => rw [hs] at h; cases h

end Lexeme
end SourceOutline
