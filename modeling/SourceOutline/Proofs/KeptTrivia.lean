import SourceOutline.Proofs.Outcome
import SourceOutline.Proofs.Progress

/-! What preferences change in a reading.
Lexers with any preferences go through a text side by side. Their answers differ in the trivia of
tokens only, and each shows what it keeps of all the trivia there is. -/
namespace SourceOutline

/-- The comments and the directives of a list, as far as each are kept. -/
def LexPreferences.kept (p : LexPreferences) (vs : List Trivia) : List Trivia :=
  vs.filter fun v => if v.kind.isComment then p.keepComments else p.keepDirectives

def Token.kept (p : LexPreferences) (t : Token) : Token := { t with trivia := p.kept t.trivia }

namespace Lexer
open Lexeme

theorem kept_cons (l : Lexer) (v : Trivia) (vs : List Trivia) :
    l.preferences.kept (v :: vs) =
      if l.keeps v.kind then v :: l.preferences.kept vs else l.preferences.kept vs := by
  rw [LexPreferences.kept, List.filter_cons]
  cases hk : v.kind <;> rfl

structure Alike (l l' : Lexer) : Prop where
  rest : l'.rest = l.rest
  position : l'.position = l.position
  lineStart : l'.lineStart = l.lineStart
  issued : l'.issued = l.issued
  total : l'.metrics.total = l.metrics.total
  comments : l'.metrics.comments = l.metrics.comments
  directives : l'.metrics.directives = l.metrics.directives

namespace Alike
variable {l l' : Lexer}

theorem moveOver (h : Alike l l') (taken rest : List Char) :
    Alike (l.moveOver taken rest) (l'.moveOver taken rest) :=
  { h with rest := rfl, position := congrArg (·.advanceAll taken) h.position }

theorem skipBlanks (h : Alike l l') : Alike l.skipBlanks l'.skipBlanks := by
  have hmoved := h.moveOver (blanks l.rest).1 (blanks l.rest).2
  rw [Lexer.skipBlanks, Lexer.skipBlanks, h.rest, h.lineStart]
  exact { hmoved with lineStart := rfl }

theorem passTrivia (h : Alike l l') (kind : TriviaKind) (s : Scan TriviaKind) :
    Alike (l.passTrivia kind s) (l'.passTrivia kind s) := by
  have hmoved := h.moveOver s.taken s.rest
  refine { hmoved with total := ?_, comments := ?_, directives := ?_ }
  · cases kind <;> exact h.total
  · cases kind <;> simp [Lexer.passTrivia, LexMetrics.countTrivia, h.comments]
  · cases kind <;> simp [Lexer.passTrivia, LexMetrics.countTrivia, h.directives]

theorem passToken (h : Alike l l') (s : Scan TokenKind) (t t' : Token) :
    Alike (l.passToken s t) (l'.passToken s t') := by
  have hmoved := h.moveOver s.taken s.rest
  refine ⟨hmoved.rest, hmoved.position, rfl, congrArg (· + 1) h.issued, ?_, ?_, ?_⟩
  · simp [Lexer.passToken, h.total]
  · simp [Lexer.passToken, h.comments]
  · simp [Lexer.passToken, h.directives]

theorem spanOver (h : Alike l l') (taken : List Char) : l'.spanOver taken = l.spanOver taken := by
  rw [Lexer.spanOver, Lexer.spanOver, h.position]

theorem triviaItem (h : Alike l l') (kind : TriviaKind) :
    l'.triviaItem kind = l.triviaItem kind := by
  rw [Lexer.triviaItem, Lexer.triviaItem, h.rest, h.spanOver]

theorem triviaKind? (h : Alike l l') :
    Lexeme.triviaKind? l'.lineStart l'.rest = Lexeme.triviaKind? l.lineStart l.rest := by
  rw [h.rest, h.lineStart]

/-- The second lexer gathers what it keeps of all that the first one gathers. -/
theorem gather (h : Alike l l') (hl : l.KeepsAll) (found : List Trivia) :
    (l'.gather (l'.preferences.kept found)).1 = (l.gather found).1.map l'.preferences.kept ∧
      Alike (l.gather found).2 (l'.gather (l'.preferences.kept found)).2 := by
  obtain ⟨n, hn⟩ : ∃ n, n = l.rest.length := ⟨_, rfl⟩
  induction n using Nat.strongRecOn generalizing l l' found with
  | ind n ih =>
    have hskip := h.skipBlanks
    cases hk : Lexeme.triviaKind? l.skipBlanks.lineStart l.skipBlanks.rest with
    | none =>
      rw [gather_stop hk, gather_stop (hskip.triviaKind?.trans hk)]
      exact ⟨congrArg Except.ok List.filter_reverse.symm, hskip⟩
    | some kind =>
      have hk' := hskip.triviaKind?.trans hk
      have hscan : trivia kind l'.skipBlanks.rest = trivia kind l.skipBlanks.rest := by
        rw [hskip.rest]
      cases ho : (trivia kind l.skipBlanks.rest).outcome with
      | error fault =>
        rw [gather_fault hk ho, gather_fault hk' (hscan ▸ ho)]
        dsimp only
        rw [hscan, hskip.position, hskip.spanOver]
        exact ⟨rfl, hskip.moveOver _ _⟩
      | ok k =>
        have hlt : (trivia kind l.skipBlanks.rest).rest.length < n := by
          rw [hn]
          exact Nat.lt_of_lt_of_le (length_trivia_lt hk) (length_skipBlanks_le l)
        have hpass := ih _ hlt (hskip.passTrivia kind (trivia kind l.skipBlanks.rest)) hl
          (l.skipBlanks.triviaItem kind :: found) rfl
        rw [gather_pass hk ho, gather_pass hk' (hscan ▸ ho), hscan, hskip.triviaItem,
          if_pos (KeepsAll.keeps (l := l.skipBlanks) hl kind)]
        rw [kept_cons] at hpass
        exact hpass

theorem readToken (h : Alike l l') (vs : List Trivia) :
    (l'.readToken (l'.preferences.kept vs)).1 =
        (l.readToken vs).1.map (Token.kept l'.preferences) ∧
      Alike (l.readToken vs).2 (l'.readToken (l'.preferences.kept vs)).2 := by
  cases hr : l.rest with
  | nil =>
    rw [readToken_nil hr, readToken_nil (h.rest.trans hr), h.position]
    exact ⟨rfl, h⟩
  | cons c cs =>
    have hr' := h.rest.trans hr
    by_cases hi : l.issued < LexError.tokenLimit
    · have hi' : l'.issued < LexError.tokenLimit := by rwa [h.issued]
      cases ho : (token c cs).outcome with
      | error fault =>
        rw [readToken_fault hr hi ho, readToken_fault hr' hi' ho, h.position, h.spanOver]
        exact ⟨rfl, h.moveOver _ _⟩
      | ok kind =>
        rw [readToken_cons hr hi ho, readToken_cons hr' hi' ho]
        refine ⟨?_, h.passToken _ _ _⟩
        rw [tokenItem, h.spanOver]
        rfl
    · rw [readToken_full hr hi, readToken_full hr' (by rwa [h.issued]), h.issued, h.position]
      exact ⟨rfl, h⟩

theorem next (h : Alike l l') (hl : l.KeepsAll) :
    l'.next.value.1 = l.next.value.1.map (Token.kept l'.preferences) ∧
      Alike l.next.value.2 l'.next.value.2 := by
  obtain ⟨hitems, hbehind⟩ := h.gather hl []
  have hpref := preferences_gather l' []
  rw [show l'.preferences.kept [] = [] from rfl] at hitems hbehind
  rcases hg : l.gather [] with ⟨r, b⟩
  rcases hg' : l'.gather [] with ⟨r', b'⟩
  rw [hg, hg'] at hitems hbehind
  rw [hg'] at hpref
  cases r with
  | error f =>
    obtain rfl : r' = .error f := hitems
    rw [value_next, value_next, hg, hg']
    exact ⟨rfl, hbehind⟩
  | ok vs =>
    obtain rfl : r' = .ok (l'.preferences.kept vs) := hitems
    rw [value_next, value_next, hg, hg', ← hpref]
    exact hbehind.readToken vs

end Alike

theorem Alike.after {l l' : Lexer} (h : Alike l l') (hl : l.KeepsAll) (n : Nat) :
    Alike (l.after n) (l'.after n) := by
  induction n with
  | zero => exact h
  | succ n ih => exact (ih.next (hl.after n)).2

theorem Alike.answer {l l' : Lexer} (h : Alike l l') (hl : l.KeepsAll) (n : Nat) :
    l'.answer n = (l.answer n).map (Token.kept l'.preferences) := by
  have hnext := ((h.after hl n).next (hl.after n)).1
  rwa [preferences_after] at hnext

theorem bare_map_kept (p : LexPreferences) (r : Except LexFailure Token) :
    bare (r.map (Token.kept p)) = bare r := by
  cases r <;> rfl

/-- Under any two preferences every step gives the same token but for its trivia, or the same error,
and tokens, comments and directives are counted alike. The trivia of a token is what is kept of the
trivia that it has when all is kept. -/
theorem preferences_filter_trivia (p q : LexPreferences) (text : String) (n : Nat) :
    let l := ofString p text
    let l' := ofString q text
    bare (l.answer n) = bare (l'.answer n) ∧
      (l.after n).metrics.total = (l'.after n).metrics.total ∧
      (l.after n).metrics.comments = (l'.after n).metrics.comments ∧
      (l.after n).metrics.directives = (l'.after n).metrics.directives ∧
      l.answer n = ((ofString .full text).answer n).map (Token.kept p) := by
  intro l l'
  have hfull : (ofString .full text).KeepsAll := ⟨rfl, rfl⟩
  have hp : Alike (ofString .full text) l := ⟨rfl, rfl, rfl, rfl, rfl, rfl, rfl⟩
  have hq : Alike (ofString .full text) l' := ⟨rfl, rfl, rfl, rfl, rfl, rfl, rfl⟩
  have hpn := hp.after hfull n
  have hqn := hq.after hfull n
  refine ⟨?_, ?_, ?_, ?_, hp.answer hfull n⟩
  · rw [hp.answer hfull, hq.answer hfull, bare_map_kept, bare_map_kept]
  · rw [hpn.total, hqn.total]
  · rw [hpn.comments, hqn.comments]
  · rw [hpn.directives, hqn.directives]

theorem preferences_filter_trivia_four :
    let text := "/*c*/\n#d\nx \""
    let comment : Trivia := ⟨.blockComment, "/*c*/", ⟨⟨0, 1, 1⟩, ⟨5, 1, 6⟩⟩⟩
    let directive : Trivia := ⟨.directive, "#d", ⟨⟨6, 2, 1⟩, ⟨8, 2, 3⟩⟩⟩
    let x (vs : List Trivia) : Token := ⟨.identifier, "x", ⟨⟨9, 3, 1⟩, ⟨10, 3, 2⟩⟩, vs⟩
    let l (comments directives : Bool) := ofString ⟨comments, directives, false⟩ text
    (l true true).answer 0 = .ok (x [comment, directive]) ∧
      (l true false).answer 0 = .ok (x [comment]) ∧
      (l false true).answer 0 = .ok (x [directive]) ∧
      (l false false).answer 0 = .ok (x []) ∧
      ∀ comments directives,
        (l comments directives).answer 1 =
          .error ⟨.unterminatedLiteral 3 3, ⟨⟨11, 3, 3⟩, ⟨12, 3, 4⟩⟩⟩ ∧
        ((l comments directives).after 1).metrics.total = 1 ∧
        ((l comments directives).after 1).metrics.comments = 1 ∧
        ((l comments directives).after 1).metrics.directives = 1 := by
  intro text comment directive x l
  have hfirst : (ofString .full text).answer 0 = .ok (x [comment, directive]) := by decide +kernel
  have hsecond : (ofString .full text).answer 1 =
      .error ⟨.unterminatedLiteral 3 3, ⟨⟨11, 3, 3⟩, ⟨12, 3, 4⟩⟩⟩ := by decide +kernel
  have hkept (p : LexPreferences) : (ofString p text).answer 0 =
      .ok ((x [comment, directive]).kept p) := by
    rw [(preferences_filter_trivia p .full text 0).2.2.2.2, hfirst]
    rfl
  refine ⟨hkept _, hkept _, hkept _, hkept _, fun comments directives => ?_⟩
  obtain ⟨_, htotal, hcomments, hdirectives, hanswer⟩ :=
    preferences_filter_trivia ⟨comments, directives, false⟩ .full text 1
  refine ⟨?_, htotal.trans ?_, hcomments.trans ?_, hdirectives.trans ?_⟩
  · rw [hanswer, hsecond]
    rfl
  all_goals decide +kernel

end Lexer
end SourceOutline
