import SourceOutline.Proofs.LexerStep
import SourceOutline.Proofs.TokenRun

/-! Reading a text that stands further down.
A text is read in the same way wherever it starts a line: only the places of its tokens and trivia
move. -/
namespace SourceOutline
variable {bytes lines count : Nat}

def Position.shift (bytes lines : Nat) (p : Position) : Position :=
  ⟨p.offset + bytes, p.line + lines, p.column⟩

def Span.shift (bytes lines : Nat) (s : Span) : Span :=
  ⟨s.start.shift bytes lines, s.stop.shift bytes lines⟩

def Trivia.shift (bytes lines : Nat) (v : Trivia) : Trivia :=
  { v with span := v.span.shift bytes lines }

def Token.shift (bytes lines : Nat) (t : Token) : Token :=
  { t with
    span := t.span.shift bytes lines
    trivia := t.trivia.map (Trivia.shift bytes lines) }

@[simp] theorem Position.advance_shift (p : Position) (c : Char) :
    (p.shift bytes lines).advance c = (p.advance c).shift bytes lines := by
  by_cases hn : c = '\n'
  · subst hn
    simp [shift]
    omega
  · by_cases ht : c = '\t'
    · subst ht
      simp [shift]
      omega
    · simp [advance, hn, ht, shift]
      omega

@[simp] theorem Position.advanceAll_shift (p : Position) (cs : List Char) :
    (p.shift bytes lines).advanceAll cs = (p.advanceAll cs).shift bytes lines := by
  induction cs generalizing p with
  | nil => rfl
  | cons c cs ih => rw [advanceAll_cons, advanceAll_cons, advance_shift, ih]

namespace Lexer
open Lexeme

/-- The second lexer reads the same text further down, after `count` more tokens. -/
structure Shifted (bytes lines count : Nat) (l l' : Lexer) : Prop where
  rest : l'.rest = l.rest
  position : l'.position = l.position.shift bytes lines
  lineStart : l'.lineStart = l.lineStart
  issued : l'.issued = l.issued + count
  preferences : l'.preferences = l.preferences

namespace Shifted
variable {l l' m : Lexer}

theorem moveOver (h : Shifted bytes lines count l l') (taken rest : List Char) :
    Shifted bytes lines count (l.moveOver taken rest) (l'.moveOver taken rest) where
  rest := rfl
  position := by simp [Lexer.moveOver, h.position]
  lineStart := h.lineStart
  issued := h.issued
  preferences := h.preferences

theorem skipBlanks (h : Shifted bytes lines count l l') :
    Shifted bytes lines count l.skipBlanks l'.skipBlanks where
  rest := by simp [Lexer.skipBlanks, Lexer.moveOver, h.rest]
  position := by simp [Lexer.skipBlanks, Lexer.moveOver, h.rest, h.position]
  lineStart := by simp [Lexer.skipBlanks, h.rest, h.lineStart]
  issued := h.issued
  preferences := h.preferences

theorem spanOver (h : Shifted bytes lines count l l') (taken : List Char) :
    l'.spanOver taken = (l.spanOver taken).shift bytes lines := by
  simp [Lexer.spanOver, h.position, Span.shift]

theorem passTrivia (h : Shifted bytes lines count l l') (kind : TriviaKind) (s : Scan TriviaKind) :
    Shifted bytes lines count (l.passTrivia kind s) (l'.passTrivia kind s) where
  rest := rfl
  position := (h.moveOver s.taken s.rest).position
  lineStart := h.lineStart
  issued := h.issued
  preferences := h.preferences

theorem triviaItem (h : Shifted bytes lines count l l') (kind : TriviaKind) :
    l'.triviaItem kind = (l.triviaItem kind).shift bytes lines := by
  simp [Lexer.triviaItem, h.rest, h.spanOver, Trivia.shift]

theorem keeps (h : Shifted bytes lines count l l') (kind : TriviaKind) :
    l'.keeps kind = l.keeps kind := by
  cases kind <;> simp [Lexer.keeps, h.preferences]

theorem gathers (h : Shifted bytes lines count l l') {found vs : List Trivia}
    (hg : Gathers l found vs m) (before : List Trivia) :
    ∃ m', Shifted bytes lines count m m' ∧
      Gathers l' (found.map (Trivia.shift bytes lines) ++ before.reverse)
        (before ++ vs.map (Trivia.shift bytes lines)) m' := by
  induction hg generalizing l' with
  | @stop l found hk =>
    have hskip := h.skipBlanks
    refine ⟨l'.skipBlanks, hskip, ?_⟩
    rw [← hskip.rest, ← hskip.lineStart] at hk
    have hg : Gathers l' (found.map (Trivia.shift bytes lines) ++ before.reverse) _ _ := .stop hk
    simpa using hg
  | @pass l m found vs kind k hk hs _ ih =>
    have hskip := h.skipBlanks
    obtain ⟨m', hm, hg⟩ := ih (hskip.passTrivia kind (trivia kind l.skipBlanks.rest))
    refine ⟨m', hm, ?_⟩
    rw [← hskip.rest, ← hskip.lineStart] at hk
    rw [← hskip.rest] at hs
    refine Gathers.pass hk hs ?_
    rw [hskip.rest, hskip.keeps, hskip.triviaItem]
    by_cases hkeep : l.skipBlanks.keeps kind = true
    · simpa [hkeep] using hg
    · simpa [hkeep] using hg

theorem passToken (h : Shifted bytes lines count l l') (s : Scan TokenKind) (t t' : Token) :
    Shifted bytes lines count (l.passToken s t) (l'.passToken s t') where
  rest := rfl
  position := (h.moveOver s.taken s.rest).position
  lineStart := rfl
  issued := by
    simp only [Lexer.passToken, h.issued]
    omega
  preferences := h.preferences

/-- The same token is read further down, as long as tokens are to be had there. Its trivia plays no
part. -/
theorem readToken (h : Shifted bytes lines count l l') {vs : List Trivia} {t : Token}
    (hr : l.readToken vs = (.ok t, m)) (hlimit : t.isEof = false → l'.issued < LexError.tokenLimit)
    (ws : List Trivia) :
    ∃ m', Shifted bytes lines count m m' ∧
      l'.readToken ws = (.ok { t.shift bytes lines with trivia := ws }, m') := by
  rcases readToken_cases hr with ⟨hrest, rfl, rfl⟩ | ⟨c, cs, kind, hrest, _, hs, rfl, rfl⟩
  · refine ⟨l', h, ?_⟩
    rw [readToken_nil (h.rest.trans hrest), h.position]
    rfl
  · have hread := readToken_cons (h.rest.trans hrest) (hlimit (tokenItem_isEof hs _ _)) hs ws
    have hitem : l'.tokenItem kind (token c cs).taken ws =
        { (l.tokenItem kind (token c cs).taken vs).shift bytes lines with trivia := ws } := by
      simp [tokenItem, Token.shift, h.spanOver]
    rw [hitem] at hread
    exact ⟨_, h.passToken _ _ _, hread⟩

/-- The next token further down. Trivia `before` that was found in front of the text goes to it. -/
theorem next {l₀ : Lexer} {before : List Trivia} {t : Token} (h : Shifted bytes lines count l l')
    (hbefore : ∀ vs m, Gathers l' before.reverse vs m → Gathers l₀ [] vs m)
    (hn : l.next.value = (.ok t, m)) (hlimit : t.isEof = false → l'.issued < LexError.tokenLimit) :
    ∃ m', Shifted bytes lines count m m' ∧
      l₀.next.value = (.ok { t.shift bytes lines with
        trivia := before ++ t.trivia.map (Trivia.shift bytes lines) }, m') := by
  obtain ⟨vs, b, hg, hr⟩ := next_cases hn
  obtain ⟨b', hb, hg'⟩ := h.gathers hg before
  have hissued : b'.issued = l'.issued := by
    rw [hb.issued, hg.after.2.1, h.issued]
  obtain ⟨m', hm, hr'⟩ := hb.readToken hr (by rwa [hissued])
    (before ++ vs.map (Trivia.shift bytes lines))
  refine ⟨m', hm, ?_⟩
  rw [(hbefore _ _ hg').next_eq, hr', trivia_readToken hr]

/-- A whole run further down. -/
theorem yields {l₀ : Lexer} {before : List Trivia} {ts : List Token}
    (h : Shifted bytes lines count l l')
    (hbefore : ∀ vs m, Gathers l' before.reverse vs m → Gathers l₀ [] vs m)
    (hy : Yields Lexer.next l ts m)
    (hcount : l'.issued + ts.dropLast.length ≤ LexError.tokenLimit) :
    ∃ m', Yields Lexer.next l₀ (Token.lead before (ts.map (Token.shift bytes lines))) m' := by
  induction hy generalizing l' l₀ before with
  | @last l m t hn ht =>
    obtain ⟨m', _, hn'⟩ := h.next hbefore hn (by simp [ht])
    exact ⟨m', .last hn' ht⟩
  | @more l u m t ts hn ht hs ih =>
    rw [List.dropLast_cons_of_ne_nil hs.ne_nil, List.length_cons] at hcount
    obtain ⟨u', hu, hn'⟩ := h.next hbefore hn (fun _ => by omega)
    have hissued : u'.issued = l'.issued + 1 := by
      rw [hu.issued, issued_next hn, h.issued, if_neg (by simp [ht])]
      omega
    -- Behind the first token nothing is carried over any more.
    have hnone : ∀ vs m, Gathers u' ([] : List Trivia).reverse vs m → Gathers u' [] vs m :=
      fun _ _ hg => hg
    obtain ⟨m', hrest⟩ := ih hu hnone (by omega)
    rw [Token.lead_nil] at hrest
    exact ⟨m', .more hn' ht hrest⟩

end Shifted
end Lexer
end SourceOutline
