import SourceOutline.Diagnostic.Event
import SourceOutline.Lexer.Lexeme

/-! Why a text cannot be read as tokens. -/
namespace SourceOutline

/-- Lines and columns are those of the start of the faulty token or comment. -/
inductive LexError
  | invalidCharacter (character : Char) (line column : Nat)
  | unterminatedLiteral (line column : Nat)
  | unterminatedComment (line column : Nat)
  | identifierTooLong (length : Nat)
  | tooManyTokens (count : Nat)
  deriving DecidableEq, Repr

namespace LexError

/-- The most tokens read from one text. -/
def tokenLimit : Nat := 5000000

def message : LexError → String
  | invalidCharacter character line column =>
    s!"Invalid character '{character}' at line {line}, column {column}"
  | unterminatedLiteral line column =>
    s!"Unterminated literal starting at line {line}, column {column}"
  | unterminatedComment line column =>
    s!"Unterminated block comment starting at line {line}, column {column}"
  | identifierTooLong length =>
    s!"Identifier too long: {length} characters (max {Lexeme.identifierLimit})"
  | tooManyTokens count => s!"Too many tokens: {count} (max {tokenLimit})"

def code : LexError → Code
  | invalidCharacter .. => .invalidCharacter
  | unterminatedLiteral .. => .unterminatedLiteral
  | unterminatedComment .. => .unterminatedComment
  | identifierTooLong _ => .identifierTooLong
  | tooManyTokens _ => .tooManyTokens

end LexError

/-- The error that a fault of the text at `p` amounts to. -/
def Fault.errorAt (p : Position) : Fault → LexError
  | invalidCharacter c => .invalidCharacter c p.line p.column
  | unterminatedLiteral => .unterminatedLiteral p.line p.column
  | unterminatedComment => .unterminatedComment p.line p.column
  | identifierTooLong length => .identifierTooLong length

/-- An error and the stretch of text that was read when it was found. -/
structure LexFailure where
  error : LexError
  span : Span
  deriving DecidableEq, Repr

def LexFailure.event (f : LexFailure) : Event :=
  ((((Event.error f.error.code f.error.message).atSpan f.span).withContext
    "line" (toString f.span.start.line)).withContext
    "column" (toString f.span.start.column))

end SourceOutline
