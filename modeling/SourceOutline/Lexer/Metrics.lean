import SourceOutline.Preferences
import SourceOutline.Token

/-! Counts kept while a text is read. -/
namespace SourceOutline

structure LexMetrics where
  total : Nat
  identifiers : Nat
  keywords : Nat
  literals : Nat
  punctuators : Nat
  comments : Nat
  directives : Nat
  /-- The greatest length of an identifier, in bytes. -/
  longestIdentifier : Nat
  deriving DecidableEq, Repr

namespace LexMetrics

def zero : LexMetrics := ⟨0, 0, 0, 0, 0, 0, 0, 0⟩

def countKind (m : LexMetrics) (t : Token) : LexMetrics :=
  match t.kind with
  | .identifier =>
    { m with
      identifiers := m.identifiers + 1
      longestIdentifier := max m.longestIdentifier t.image.utf8ByteSize }
  | .keyword => { m with keywords := m.keywords + 1 }
  | .integer | .floating | .character | .string => { m with literals := m.literals + 1 }
  | .leftParen | .rightParen | .scope | .punctuator => { m with punctuators := m.punctuators + 1 }
  | .eof => m

/-- Counts a token, and its kind where details are wanted. -/
def countToken (m : LexMetrics) (preferences : LexPreferences) (t : Token) : LexMetrics :=
  let counted := { m with total := m.total + 1 }
  if preferences.detailedMetrics then counted.countKind t else counted

def countTrivia (m : LexMetrics) : TriviaKind → LexMetrics
  | .directive => { m with directives := m.directives + 1 }
  | _ => { m with comments := m.comments + 1 }

section
variable (m : LexMetrics) (p : LexPreferences) (t : Token)

@[simp] theorem total_countKind : (m.countKind t).total = m.total := by
  unfold countKind
  split <;> rfl

@[simp] theorem comments_countKind : (m.countKind t).comments = m.comments := by
  unfold countKind
  split <;> rfl

@[simp] theorem directives_countKind : (m.countKind t).directives = m.directives := by
  unfold countKind
  split <;> rfl

@[simp] theorem total_countToken : (m.countToken p t).total = m.total + 1 := by
  unfold countToken
  split <;> simp

@[simp] theorem comments_countToken : (m.countToken p t).comments = m.comments := by
  unfold countToken
  split <;> simp

@[simp] theorem directives_countToken : (m.countToken p t).directives = m.directives := by
  unfold countToken
  split <;> simp

end

end LexMetrics
end SourceOutline
