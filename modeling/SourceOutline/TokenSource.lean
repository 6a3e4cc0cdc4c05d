import SourceOutline.Lexer

/-! Where tokens come from: a text that is being read, or a script that was written down. -/
namespace SourceOutline

/-- Tokens and errors in the order in which they are given out. -/
structure Script where
  items : List (Except LexError Token)
  rest : List (Except LexError Token)
  calls : Nat

def Script.ofItems (items : List (Except LexError Token)) : Script := ⟨items, items, 0⟩

inductive TokenSource
  | text (lexer : Lexer)
  | script (script : Script)

namespace TokenSource

/-- A text starts over on the new input; a script goes back to its first item. -/
def reset (s : TokenSource) (input : String) : TokenSource :=
  match s with
  | text l => text (l.reset input)
  | script c => script (.ofItems c.items)

/-- The stretch of the end mark after a script. -/
def nowhere : Span := .point ⟨0, 0, 0⟩

/-- The next token. A script that has run out gives the end mark for ever, and reports nothing. -/
def next : TokenSource → Reported (Except LexError Token × TokenSource)
  | text l =>
    let r := l.next
    ⟨(r.value.1.mapError LexFailure.error, text r.value.2), r.events⟩
  | script c =>
    match c.rest with
    | [] => .silent (.ok (.endMark nowhere), script { c with calls := c.calls + 1 })
    | item :: rest => .silent (item, script { c with rest := rest, calls := c.calls + 1 })

/-- A bound on the tokens still to come. -/
def remaining : TokenSource → Nat
  | text l => l.rest.length
  | script c => c.rest.length

theorem remaining_next_le (s : TokenSource) : s.next.value.2.remaining ≤ s.remaining := by
  cases s with
  | text l => exact Lexer.length_next_le l
  | script c =>
    unfold next
    dsimp only
    split
    · exact Nat.le_refl _
    · next item rest hr =>
      have h : rest.length ≤ c.rest.length := by simp [hr]
      exact h

/-- A token other than the end mark brings the end nearer. -/
theorem remaining_next_lt {s u : TokenSource} {t : Token} (h : s.next.value = (.ok t, u))
    (ht : t.isEof = false) : u.remaining < s.remaining := by
  cases s with
  | text l =>
    unfold next at h
    dsimp only at h
    rcases hn : l.next.value with ⟨f | r, m⟩
    · rw [hn] at h
      obtain ⟨⟩ : (Except.error f.error, text m) = (.ok t, u) := h
    · rw [hn] at h
      obtain ⟨⟩ : (Except.ok r, text m) = (.ok t, u) := h
      exact Lexer.length_next_lt hn ht
  | script c =>
    unfold next at h
    dsimp only at h
    split at h
    · cases h
      simp [Token.isEof, Token.is, Token.endMark, Token.plain] at ht
    · next item rest hr =>
      cases h
      simp [remaining, hr]

end TokenSource
end SourceOutline
