import SourceOutline.Position

/-! Tokens of a C++ text, and the comments and directives that precede them. -/
namespace SourceOutline

inductive TokenKind
  | identifier | keyword | integer | floating | character | string
  | leftParen | rightParen | scope | punctuator | eof
  deriving DecidableEq, Repr

namespace TokenKind

/-- The short name shown in listings. -/
def label : TokenKind → String
  | identifier => "ID"
  | keyword => "KEYWORD"
  | integer => "INTEGER"
  | floating => "FLOATING"
  | character => "CHARACTER"
  | string => "STRING"
  | leftParen => "LPAREN"
  | rightParen => "RPAREN"
  | scope => "SCOPE"
  | punctuator => "PUNCT"
  | eof => "EOF"

/-- The long name used in JSON texts. -/
def name : TokenKind → String
  | identifier => "Identifier"
  | keyword => "Keyword"
  | integer => "IntegerLiteral"
  | floating => "FloatingLiteral"
  | character => "CharacterLiteral"
  | string => "StringLiteral"
  | leftParen => "LeftParen"
  | rightParen => "RightParen"
  | scope => "ScopeSeparator"
  | punctuator => "Punctuator"
  | eof => "Eof"

def all : List TokenKind :=
  [identifier, keyword, integer, floating, character, string, leftParen, rightParen, scope,
   punctuator, eof]

def ofName? (name : String) : Option TokenKind := all.find? (·.name = name)

def ofLabel? (label : String) : Option TokenKind := all.find? (·.label = label)

@[simp] theorem ofName?_name (k : TokenKind) : ofName? k.name = some k := by
  cases k <;> decide

@[simp] theorem ofLabel?_label (k : TokenKind) : ofLabel? k.label = some k := by
  cases k <;> decide

def isLiteral : TokenKind → Bool
  | integer | floating | character | string => true
  | _ => false

def isPunctuation : TokenKind → Bool
  | leftParen | rightParen | scope | punctuator => true
  | _ => false

end TokenKind

/-- What stands between tokens and is worth keeping. -/
inductive TriviaKind
  | lineComment | blockComment | directive
  deriving DecidableEq, Repr

namespace TriviaKind

def name : TriviaKind → String
  | lineComment => "LineComment"
  | blockComment => "BlockComment"
  | directive => "Directive"

def all : List TriviaKind := [lineComment, blockComment, directive]

def ofName? (name : String) : Option TriviaKind := all.find? (·.name = name)

@[simp] theorem ofName?_name (k : TriviaKind) : ofName? k.name = some k := by
  cases k <;> decide

def isComment : TriviaKind → Bool
  | directive => false
  | _ => true

end TriviaKind

structure Trivia where
  kind : TriviaKind
  image : String
  span : Span
  deriving DecidableEq, Repr

/-- A token with the trivia in front of it, oldest first. -/
structure Token where
  kind : TokenKind
  image : String
  span : Span
  trivia : List Trivia
  deriving DecidableEq, Repr

namespace Token

def plain (kind : TokenKind) (image : String) (span : Span) : Token := ⟨kind, image, span, []⟩

def endMark (span : Span) : Token := plain .eof "" span

/-- The same kind and image at another place, without trivia. -/
def stamped (t : Token) (span : Span) : Token := plain t.kind t.image span

@[simp] theorem stamped_kind (t : Token) (s : Span) : (t.stamped s).kind = t.kind := rfl
@[simp] theorem stamped_image (t : Token) (s : Span) : (t.stamped s).image = t.image := rfl
@[simp] theorem stamped_span (t : Token) (s : Span) : (t.stamped s).span = s := rfl
@[simp] theorem stamped_trivia (t : Token) (s : Span) : (t.stamped s).trivia = [] := rfl

def is (t : Token) (kind : TokenKind) : Bool := t.kind == kind

def isEof (t : Token) : Bool := t.is .eof

@[simp] theorem isEof_iff {t : Token} : t.isEof = true ↔ t.kind = .eof := by
  simp [isEof, is]

def isIdentifier (t : Token) (name : String) : Bool := t.is .identifier && t.image == name

/-- A keyword or punctuator spelled `text`. -/
def isSymbol (t : Token) (text : String) : Bool :=
  !t.is .identifier && !t.kind.isLiteral && t.image == text

def beginLine (t : Token) : Nat := t.span.start.line

def beginColumn (t : Token) : Nat := t.span.start.column

def endLine (t : Token) : Nat := t.span.stop.line

/-- The column of the last character, never below one for a token that has characters. -/
def endColumn (t : Token) : Nat :=
  if t.span.isEmpty then t.span.stop.column else max (t.span.stop.column - 1) 1

def text (t : Token) : String := s!"{t.kind.label}({t.image})"

end Token
end SourceOutline
