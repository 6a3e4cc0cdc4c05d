import SourceOutline.Diagnostic.Reported
import SourceOutline.Lexer.Error
import SourceOutline.Lexer.Metrics

/-! Reading C++ text token by token.
Blanks are skipped. Comments and directives become the trivia of the token after them, the end mark
included. -/
namespace SourceOutline

/-- A text being read: what is left of it, and what was found so far. -/
structure Lexer where
  rest : List Char
  position : Position
  /-- Whether only blanks and trivia stand between the start of the line and the cursor. -/
  lineStart : Bool
  issued : Nat
  metrics : LexMetrics
  preferences : LexPreferences

namespace Lexer

def ofString (preferences : LexPreferences) (text : String) : Lexer :=
  ⟨text.toList, .start, true, 0, .zero, preferences⟩

/-- Starts over on another text. -/
def reset (l : Lexer) (text : String) : Lexer := ofString l.preferences text

/-- Moves the cursor over the text `taken`, in front of `rest`. -/
def moveOver (l : Lexer) (taken rest : List Char) : Lexer :=
  { l with rest := rest, position := l.position.advanceAll taken }

def skipBlanks (l : Lexer) : Lexer :=
  let b := Lexeme.blanks l.rest
  { l.moveOver b.1 b.2 with lineStart := l.lineStart || Lexeme.endsLine b.1 }

def keeps (l : Lexer) : TriviaKind → Bool
  | .directive => l.preferences.keepDirectives
  | _ => l.preferences.keepComments

/-- Counts a comment or directive that was read from `taken`. -/
def passTrivia (l : Lexer) (kind : TriviaKind) (s : Scan TriviaKind) : Lexer :=
  { l.moveOver s.taken s.rest with metrics := l.metrics.countTrivia kind }

/-- The stretch from the cursor over the text `taken`. -/
def spanOver (l : Lexer) (taken : List Char) : Span :=
  ⟨l.position, l.position.advanceAll taken⟩

theorem length_skipBlanks_le (l : Lexer) : l.skipBlanks.rest.length ≤ l.rest.length :=
  Text.length_spanUnits_snd_le _ _

theorem length_trivia_lt {lineStart : Bool} {cs : List Char} {kind : TriviaKind}
    (h : Lexeme.triviaKind? lineStart cs = some kind) :
    (Lexeme.trivia kind cs).rest.length < cs.length := by
  have hline : ∀ c r, c ≠ '\n' → c ≠ '\r' →
      (Lexeme.line (c :: r)).2.length < (c :: r).length := by
    intro c r hn hr
    refine Text.length_spanUnits_snd_lt (by simp) ?_
    have := Nat.le_max_left 1 (Lexeme.spliceLength (c :: r))
    simp only [Lexeme.lineUnit, hn, hr, if_false, decide_false, Bool.false_and,
      Bool.false_eq_true]
    omega
  unfold Lexeme.triviaKind? at h
  split at h
  · cases h
    exact hline '/' _ (by decide) (by decide)
  · cases h
    next r =>
    unfold Lexeme.trivia Lexeme.blockComment
    dsimp only
    split
    · simp
    · have := Text.length_spanUnits_snd_le (Text.untilUnit ['*', '/']) r
      simp only [List.drop_succ_cons, List.drop_zero, List.length_drop, List.length_cons]
      omega
  · split at h
    · cases h
      exact hline '#' _ (by decide) (by decide)
    · cases h
  · cases h

/-- Collects the trivia in front of the next token. `found` holds the items so far, last one
first. -/
def gather (l : Lexer) (found : List Trivia) : Except LexFailure (List Trivia) × Lexer :=
  let b := l.skipBlanks
  match h : Lexeme.triviaKind? b.lineStart b.rest with
  | none => (.ok found.reverse, b)
  | some kind =>
    let s := Lexeme.trivia kind b.rest
    match s.outcome with
    | .error fault =>
      (.error ⟨fault.errorAt b.position, b.spanOver s.taken⟩, b.moveOver s.taken s.rest)
    | .ok _ =>
      have := length_trivia_lt h
      let item := ⟨kind, String.ofList s.taken, b.spanOver s.taken⟩
      gather (b.passTrivia kind s) (if b.keeps kind then item :: found else found)
termination_by l.rest.length
decreasing_by
  exact Nat.lt_of_lt_of_le this (length_skipBlanks_le l)

/-- Counts a token that was read from `taken`. -/
def passToken (l : Lexer) (s : Scan TokenKind) (t : Token) : Lexer :=
  { l.moveOver s.taken s.rest with
    lineStart := false
    issued := l.issued + 1
    metrics := l.metrics.countToken l.preferences t }

/-- The token at the cursor, which stands at neither blanks nor trivia. -/
def readToken (l : Lexer) (trivia : List Trivia) : Except LexFailure Token × Lexer :=
  match l.rest with
  | [] => (.ok ⟨.eof, "", .point l.position, trivia⟩, l)
  | c :: cs =>
    if l.issued < LexError.tokenLimit then
      let s := Lexeme.token c cs
      match s.outcome with
      | .error fault =>
        (.error ⟨fault.errorAt l.position, l.spanOver s.taken⟩, l.moveOver s.taken s.rest)
      | .ok kind =>
        let t := ⟨kind, String.ofList s.taken, l.spanOver s.taken, trivia⟩
        (.ok t, l.passToken s t)
    else (.error ⟨.tooManyTokens l.issued, .point l.position⟩, l)

/-- Reports a failure and gives it out. -/
def fail {α : Type} (l : Lexer) (f : LexFailure) : Reported (Except LexFailure α × Lexer) :=
  ⟨(.error f, l), [f.event]⟩

/-- The next token with its trivia. At the end of the text that is the end mark, again and again.
Trivia in front of a fault is lost. -/
def next (l : Lexer) : Reported (Except LexFailure Token × Lexer) :=
  match l.gather [] with
  | (.error f, l) => l.fail f
  | (.ok trivia, l) =>
    match l.readToken trivia with
    | (.error f, l) => l.fail f
    | (.ok t, l) => .silent (.ok t, l)

theorem value_next (l : Lexer) :
    l.next.value =
      match l.gather [] with
      | (.error f, m) => (.error f, m)
      | (.ok trivia, m) => m.readToken trivia := by
  unfold next
  split
  · rfl
  · split
    · next h => exact h.symm
    · next h => exact h.symm

theorem length_gather_le (l : Lexer) (found : List Trivia) :
    (l.gather found).2.rest.length ≤ l.rest.length := by
  fun_induction gather l found with
  | case1 l found b h => exact length_skipBlanks_le l
  | case2 l found b kind h s fault hf =>
    exact Nat.le_of_lt (Nat.lt_of_lt_of_le (length_trivia_lt h) (length_skipBlanks_le l))
  | case3 l found b kind h s k hk hlt item ih =>
    exact Nat.le_trans ih (Nat.le_of_lt (Nat.lt_of_lt_of_le hlt (length_skipBlanks_le l)))

theorem length_readToken_lt {l m : Lexer} {trivia : List Trivia} {t : Token}
    (h : l.readToken trivia = (.ok t, m)) (ht : t.isEof = false) :
    m.rest.length < l.rest.length := by
  unfold readToken at h
  split at h
  · cases h
    simp [Token.isEof, Token.is] at ht
  · next c cs hrest =>
    split at h
    · dsimp only at h
      split at h
      · cases h
      · next kind hk =>
        cases h
        have hs := (Lexeme.token_splits c cs).length_rest
        have hne := Lexeme.token_taken_ne_nil hk
        have hpos := List.length_pos_iff.2 hne
        rw [hrest]
        simp only [passToken, moveOver]
        simp only [List.length_cons] at hs ⊢
        omega
    · cases h

theorem length_readToken_le (l : Lexer) (trivia : List Trivia) :
    (l.readToken trivia).2.rest.length ≤ l.rest.length := by
  unfold readToken
  split
  · exact Nat.le_refl _
  · next c cs hrest =>
    have hs := (Lexeme.token_splits c cs).length_rest
    rw [← hrest] at hs
    split
    · dsimp only
      split
      · simp only [moveOver]
        omega
      · simp only [passToken, moveOver]
        omega
    · exact Nat.le_refl _

/-- The text left never grows. -/
theorem length_next_le (l : Lexer) : l.next.value.2.rest.length ≤ l.rest.length := by
  have hg := length_gather_le l []
  rw [value_next]
  split
  · next hb => rw [hb] at hg; exact hg
  · next trivia b hb =>
    rw [hb] at hg
    exact Nat.le_trans (length_readToken_le b trivia) hg

/-- A token other than the end mark takes some text away. -/
theorem length_next_lt {l m : Lexer} {t : Token} (h : l.next.value = (.ok t, m))
    (ht : t.isEof = false) : m.rest.length < l.rest.length := by
  rw [value_next] at h
  have hg := length_gather_le l []
  split at h
  · cases h
  · next trivia b hb =>
    rw [hb] at hg
    exact Nat.lt_of_lt_of_le (length_readToken_lt h ht) hg

/-- The tokens up to the end mark. `found` and `log` hold the tokens and events so far, last one
first. -/
def tokensFrom (l : Lexer) (found : List Token) (log : List Event) :
    Reported (Except LexFailure (List Token) × Lexer) :=
  let r := l.next
  match h : r.value with
  | (.error f, m) => ⟨(.error f, m), log.reverse ++ r.events⟩
  | (.ok t, m) =>
    if ht : t.isEof = true then ⟨(.ok found.reverse, m), log.reverse ++ r.events⟩
    else
      have := length_next_lt h (eq_false_of_ne_true ht)
      tokensFrom m (t :: found) (r.events.reverse ++ log)
termination_by l.rest.length

/-- All tokens of a text, without the end mark and the trivia in front of it. -/
def tokenize (text : String) : Reported (Except LexError (List Token)) :=
  let r := (ofString .full text).tokensFrom [] []
  match r.value with
  | (.error f, _) => ⟨.error f.error, r.events⟩
  | (.ok tokens, l) =>
    ⟨.ok tokens, r.events ++ [(Event.debug "Tokenization complete").withAll
      [("tokens", toString tokens.length), ("comments", toString l.metrics.comments),
       ("directives", toString l.metrics.directives)]]⟩

end Lexer
end SourceOutline
