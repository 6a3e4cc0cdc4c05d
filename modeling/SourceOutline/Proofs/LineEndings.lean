import Mathlib.Data.List.TakeWhile
import SourceOutline.Proofs.JoinedLiterals
import SourceOutline.Proofs.LexerStep

/-! Reading a text whose lines end in a carriage return and a newline.
It has the tokens of the text with plain newlines, at the same lines and columns. Reading fails early
where a literal has a backslash at the end of a line. -/
namespace SourceOutline
open Text

def Position.visible (p : Position) : Position := { p with offset := 0 }

def Span.visible (s : Span) : Span := ⟨s.start.visible, s.stop.visible⟩

def Trivia.visible (v : Trivia) : Trivia :=
  { v with image := String.ofList (withoutReturns v.image.toList), span := v.span.visible }

def Token.visible (t : Token) : Token :=
  { t with
    image := String.ofList (withoutReturns t.image.toList)
    span := t.span.visible
    trivia := t.trivia.map Trivia.visible }

/-- The token is a literal with a backslash at the end of a line. -/
def Token.isJoined (t : Token) : Bool := Lexeme.isJoined t.image.toList

def LexFailure.visible (f : LexFailure) : LexError × Position := (f.error, f.span.start.visible)

theorem Position.advance_visible {p p' : Position} (h : p'.visible = p.visible) (c : Char) :
    (p'.advance c).visible = (p.advance c).visible := by
  simp only [visible, mk.injEq, true_and] at h
  by_cases hn : c = '\n'
  · simp [hn, visible, h]
  · by_cases ht : c = '\t'
    · simp [ht, visible, h]
    · simp [advance, hn, ht, visible, h]

/-- A carriage return in front of a newline leaves lines and columns as they are. -/
theorem Position.advanceAll_withReturns {p p' : Position} (h : p'.visible = p.visible)
    (cs : List Char) : (p'.advanceAll (withReturns cs)).visible = (p.advanceAll cs).visible := by
  induction cs generalizing p p' with
  | nil => exact h
  | cons c cs ih =>
    by_cases hc : c = '\n'
    · subst hc
      rw [withReturns_newline]
      refine ih ?_
      simp only [visible, mk.injEq, true_and] at h
      simp [visible, advance, h]
    · rw [withReturns_cons hc]
      exact ih (advance_visible h c)

theorem Fault.errorAt_visible {p p' : Position} (h : p'.visible = p.visible) (x : Fault) :
    x.errorAt p' = x.errorAt p := by
  simp only [Position.visible, Position.mk.injEq, true_and] at h
  cases x <;> simp [errorAt, h]

namespace Lexer
open Lexeme

/-- The second lexer reads the same text with carriage returns. -/
structure Returned (l l' : Lexer) : Prop where
  rest : l'.rest = withReturns l.rest
  plain : '\r' ∉ l.rest
  position : l'.position.visible = l.position.visible
  lineStart : l'.lineStart = l.lineStart
  issued : l'.issued = l.issued
  preferences : l'.preferences = l.preferences

namespace Returned
variable {l l' : Lexer} {found found' : List Trivia} {taken rest : List Char}

theorem moveOver (h : Returned l l') (hs : taken ++ rest = l.rest) :
    Returned (l.moveOver taken rest) (l'.moveOver (withReturns taken) (withReturns rest)) where
  rest := rfl
  plain hm := h.plain (hs ▸ List.mem_append_right taken hm)
  position := Position.advanceAll_withReturns h.position taken
  lineStart := h.lineStart
  issued := h.issued
  preferences := h.preferences

theorem moveOverScan {α : Type} (h : Returned l l') {s s' : Scan α} (hs : s.Splits l.rest)
    (ht : s'.taken = withReturns s.taken) (hr : s'.rest = withReturns s.rest) :
    Returned (l.moveOver s.taken s.rest) (l'.moveOver s'.taken s'.rest) := by
  rw [ht, hr]
  exact h.moveOver hs

theorem skipBlanks (h : Returned l l') : Returned l.skipBlanks l'.skipBlanks := by
  have hblanks := blanks_withReturns h.plain
  have hmoved := h.moveOver (blanks_append l.rest)
  have hfront : '\r' ∉ (blanks l.rest).1 := fun hm =>
    h.plain (blanks_append l.rest ▸ List.mem_append_left _ hm)
  constructor
  · simpa [Lexer.skipBlanks, h.rest, hblanks] using hmoved.rest
  · exact hmoved.plain
  · simpa [Lexer.skipBlanks, h.rest, hblanks] using hmoved.position
  · simp [Lexer.skipBlanks, h.rest, hblanks, h.lineStart, endsLine_withReturns hfront]
  · exact h.issued
  · exact h.preferences

theorem spanOver (h : Returned l l') (taken : List Char) :
    (l'.spanOver (withReturns taken)).visible = (l.spanOver taken).visible := by
  simp [Lexer.spanOver, Span.visible, h.position, Position.advanceAll_withReturns h.position]

theorem keeps (h : Returned l l') (kind : TriviaKind) : l'.keeps kind = l.keeps kind := by
  cases kind <;> simp [Lexer.keeps, h.preferences]

theorem failure (h : Returned l l') (x : Fault) (span span' : Span) (hs : span.start = l.position)
    (hs' : span'.start = l'.position) :
    (LexFailure.mk (x.errorAt l'.position) span').visible =
      (LexFailure.mk (x.errorAt l.position) span).visible := by
  simp [LexFailure.visible, hs, hs', h.position, Fault.errorAt_visible h.position]

/-- A comment or directive is passed in both texts. -/
theorem passTrivia (h : Returned l l') {kind : TriviaKind} {s s' : Scan TriviaKind}
    (hs : s.Splits l.rest) (ht : s'.taken = withReturns s.taken)
    (hr : s'.rest = withReturns s.rest) :
    Returned (l.passTrivia kind s) (l'.passTrivia kind s') := by
  have hmoved := h.moveOverScan hs ht hr
  exact ⟨hmoved.rest, hmoved.plain, hmoved.position, hmoved.lineStart, hmoved.issued,
    hmoved.preferences⟩

theorem image_visible (h : Returned l l') (hs : taken ++ rest = l.rest) :
    String.ofList (withoutReturns (withReturns taken)) = String.ofList (withoutReturns taken) := by
  have hplain : '\r' ∉ taken := fun hm => h.plain (hs ▸ List.mem_append_left rest hm)
  rw [withoutReturns_withReturns hplain, withoutReturns_eq_self hplain]

theorem triviaItem (h : Returned l l') {kind : TriviaKind}
    (ht : (trivia kind l'.rest).taken = withReturns (trivia kind l.rest).taken) :
    (l'.triviaItem kind).visible = (l.triviaItem kind).visible := by
  have himage := h.image_visible (trivia_splits kind l.rest)
  simp [Lexer.triviaItem, Trivia.visible, ht, himage, h.spanOver]

inductive Gathered (r r' : Except LexFailure (List Trivia) × Lexer) : Prop
  | fault {f f' : LexFailure} (h : r.1 = .error f) (h' : r'.1 = .error f')
      (hf : f'.visible = f.visible)
  | items {vs vs' : List Trivia} (h : r.1 = .ok vs) (h' : r'.1 = .ok vs')
      (hvs : vs'.map Trivia.visible = vs.map Trivia.visible) (hm : Returned r.2 r'.2)
      (hhead : r.2.rest.head? ≠ some '\n')

theorem head?_skipBlanks (l : Lexer) : l.skipBlanks.rest.head? ≠ some '\n' := by
  intro hhead
  obtain ⟨cs, hcs⟩ := List.head?_eq_some_iff.1 hhead
  have hstop := unit_spanUnits_snd blankUnit l.rest
  rw [show (spanUnits blankUnit l.rest).2 = '\n' :: cs from hcs] at hstop
  cases hstop (by simp)

theorem gathered (h : Returned l l') (hfound : found'.map Trivia.visible = found.map Trivia.visible) :
    Gathered (l.gather found) (l'.gather found') := by
  obtain ⟨n, hn⟩ : ∃ n, n = l.rest.length := ⟨_, rfl⟩
  induction n using Nat.strongRecOn generalizing l l' found found' with
  | ind n ih =>
    have hskip := h.skipBlanks
    have hkind := triviaKind?_withReturns l.skipBlanks.lineStart l.skipBlanks.rest
    rw [← hskip.rest, ← hskip.lineStart] at hkind
    cases hk : triviaKind? l.skipBlanks.lineStart l.skipBlanks.rest with
    | none =>
      rw [gather_stop hk, gather_stop (by rw [hkind, hskip.lineStart, hk])]
      exact .items rfl rfl (by simp [hfound]) hskip (head?_skipBlanks l)
    | some kind =>
      have hk' : triviaKind? l'.skipBlanks.lineStart l'.skipBlanks.rest = some kind := by
        rw [hkind, hskip.lineStart, hk]
      have halike := trivia_withReturns hskip.plain hk
      rw [← hskip.rest] at halike
      cases halike with
      | fault ho ho' =>
        rw [gather_fault hk ho, gather_fault hk' ho']
        exact .fault rfl rfl (hskip.failure _ _ _ rfl rfl)
      | read ho ho' ht hr =>
        rw [gather_pass hk ho, gather_pass hk' ho']
        have hlt : (l.skipBlanks.passTrivia kind (trivia kind l.skipBlanks.rest)).rest.length < n := by
          rw [hn]
          exact Nat.lt_of_lt_of_le (length_trivia_lt hk) (length_skipBlanks_le l)
        refine ih _ hlt (hskip.passTrivia (trivia_splits kind _) ht hr) ?_ rfl
        rw [hskip.keeps]
        split
        · simp [hskip.triviaItem ht, hfound]
        · exact hfound

inductive Met (r r' : Except LexFailure Token × Lexer) : Prop
  | fault {f f' : LexFailure} (h : r.1 = .error f) (h' : r'.1 = .error f')
      (hf : f'.visible = f.visible)
  | token {t t' : Token} (h : r.1 = .ok t) (h' : r'.1 = .ok t') (ht : t'.visible = t.visible)
      (hs : t.isJoined = false) (hm : Returned r.2 r'.2)
  | joined {t : Token} {f : LexFailure} (h : r.1 = .ok t) (hs : t.isJoined = true)
      (h' : r'.1 = .error f)
      (hf : f.visible = (.unterminatedLiteral t.beginLine t.beginColumn, t.span.start.visible))

theorem passToken (h : Returned l l') {s s' : Scan TokenKind} (hs : s.Splits l.rest)
    (ht : s'.taken = withReturns s.taken) (hr : s'.rest = withReturns s.rest) (t t' : Token) :
    Returned (l.passToken s t) (l'.passToken s' t') := by
  have hmoved := h.moveOverScan hs ht hr
  refine ⟨hmoved.rest, hmoved.plain, hmoved.position, rfl, ?_, hmoved.preferences⟩
  simp [Lexer.passToken, h.issued]

theorem readToken (h : Returned l l') {vs vs' : List Trivia}
    (hvs : vs'.map Trivia.visible = vs.map Trivia.visible) (hhead : l.rest.head? ≠ some '\n') :
    Met (l.readToken vs) (l'.readToken vs') := by
  cases hrest : l.rest with
  | nil =>
    have hrest' : l'.rest = [] := by rw [h.rest, hrest, withReturns_nil]
    rw [readToken_nil hrest, readToken_nil hrest']
    refine .token rfl rfl ?_ rfl h
    simp [Token.visible, Span.visible, Span.point, hvs, h.position]
  | cons c cs =>
    have hc : c ≠ '\n' := by
      rintro rfl
      exact hhead (by rw [hrest, List.head?_cons])
    have hrest' : l'.rest = c :: withReturns cs := by rw [h.rest, hrest, withReturns_cons hc]
    by_cases hi : l.issued < LexError.tokenLimit
    · have hi' : l'.issued < LexError.tokenLimit := by rwa [h.issued]
      have hsplits := token_splits c cs
      rw [← hrest] at hsplits
      cases token_withReturns hc (hrest ▸ h.plain) with
      | alike halike hs =>
        cases halike with
        | fault ho ho' =>
          rw [readToken_fault hrest hi ho, readToken_fault hrest' hi' ho']
          exact .fault rfl rfl (h.failure _ _ _ rfl rfl)
        | @read k ho ho' ht hr =>
          rw [readToken_cons hrest hi ho, readToken_cons hrest' hi' ho']
          have hjoined : (l.tokenItem k (Lexeme.token c cs).taken vs).isJoined = false := by
            simpa [Token.isJoined, tokenItem] using hs k ho
          refine .token rfl rfl ?_ hjoined (h.passToken hsplits ht hr _ _)
          simp [Token.visible, tokenItem, ht, h.image_visible hsplits, h.spanOver, hvs]
      | @joined k ho hs ho' =>
        rw [readToken_cons hrest hi ho, readToken_fault hrest' hi' ho']
        have hjoined : (l.tokenItem k (Lexeme.token c cs).taken vs).isJoined = true := by
          simpa [Token.isJoined, tokenItem] using hs
        refine .joined rfl hjoined rfl ?_
        exact h.failure .unterminatedLiteral (l.spanOver []) _ rfl rfl
    · have hi' : ¬ l'.issued < LexError.tokenLimit := by rwa [h.issued]
      rw [readToken_full hrest hi, readToken_full hrest' hi']
      refine .fault rfl rfl ?_
      simp [LexFailure.visible, Span.point, h.position, h.issued]

theorem next (h : Returned l l') : Met l.next.value l'.next.value := by
  rcases hg : l.gather [] with ⟨r, b⟩
  rcases hg' : l'.gather [] with ⟨r', b'⟩
  have hgathered : Gathered (l.gather []) (l'.gather []) := h.gathered rfl
  rw [hg, hg'] at hgathered
  cases hgathered with
  | fault hr hr' hf =>
    simp only at hr hr'
    rw [value_next, value_next, hg, hg', hr, hr']
    exact .fault rfl rfl hf
  | items hr hr' hvs hm hhead =>
    simp only at hr hr'
    rw [value_next, value_next, hg, hg', hr, hr']
    exact hm.readToken hvs hhead

end Returned

/-- All that reading a text gives out: the tokens through the end mark, or up to a failure. -/
structure Reading where
  tokens : List Token
  failure : Option LexFailure

def reading (l : Lexer) : Reading :=
  match h : l.next.value with
  | (.error f, _) => ⟨[], some f⟩
  | (.ok t, m) =>
    if ht : t.isEof = true then ⟨[t], none⟩
    else
      have := length_next_lt h (eq_false_of_ne_true ht)
      ⟨t :: m.reading.tokens, m.reading.failure⟩
termination_by l.rest.length

section Reading
variable {l l' m : Lexer} {t : Token} {f : LexFailure}

theorem reading_error (h : l.next.value = (.error f, m)) : l.reading = ⟨[], some f⟩ := by
  rw [reading]
  split
  · next hn => rw [h] at hn; cases hn; rfl
  · next hn => rw [h] at hn; cases hn

theorem reading_endMark (h : l.next.value = (.ok t, m)) (ht : t.isEof = true) :
    l.reading = ⟨[t], none⟩ := by
  rw [reading]
  split
  · next hn => rw [h] at hn; cases hn
  · next hn => rw [h] at hn; cases hn; rw [dif_pos ht]

theorem reading_more (h : l.next.value = (.ok t, m)) (ht : t.isEof = false) :
    l.reading = ⟨t :: m.reading.tokens, m.reading.failure⟩ := by
  rw [reading]
  split
  · next hn => rw [h] at hn; cases hn
  · next hn => rw [h] at hn; cases hn; rw [dif_neg (by simp [ht])]

theorem head?_reading (h : l.next.value = (.ok t, m)) : ∃ ts, l.reading.tokens = t :: ts := by
  cases ht : t.isEof with
  | true => exact ⟨[], by rw [reading_endMark h ht]⟩
  | false => exact ⟨m.reading.tokens, by rw [reading_more h ht]⟩

theorem reading_tokens_ne_nil (h : l.reading.failure = none) : l.reading.tokens ≠ [] := by
  rcases hn : l.next.value with ⟨f | t, m⟩
  · rw [reading_error hn] at h
    cases h
  · obtain ⟨ts, hts⟩ := head?_reading hn
    simp [hts]

/-- The tokens of a text are those of its reading, less the end mark. -/
theorem result_tokensFrom (l : Lexer) (found : List Token) (log : List Event) :
    (l.tokensFrom found log).value.1 =
      match l.reading.failure with
      | some f => .error f
      | none => .ok (found.reverse ++ l.reading.tokens.dropLast) := by
  fun_induction tokensFrom l found log with
  | case1 l found log r f m hn => rw [reading_error hn]
  | case2 l found log r t m hn ht =>
    rw [reading_endMark hn ht]
    simp
  | case3 l found log r t m hn ht _ ih =>
    rw [ih, reading_more hn (eq_false_of_ne_true ht)]
    cases hf : m.reading.failure with
    | some f => rfl
    | none => simp [List.dropLast_cons_of_ne_nil (reading_tokens_ne_nil hf)]

/-- Reading goes on in the same way through all tokens in front of a joined literal. -/
theorem Returned.reading (h : Returned l l') :
    l'.reading.tokens.map Token.visible =
        (l.reading.tokens.takeWhile (!·.isJoined)).map Token.visible ∧
      l'.reading.failure.map LexFailure.visible =
        match l.reading.tokens.find? Token.isJoined with
        | none => l.reading.failure.map LexFailure.visible
        | some t => some (.unterminatedLiteral t.beginLine t.beginColumn, t.span.start.visible) := by
  obtain ⟨n, hlen⟩ : ∃ n, n = l.rest.length := ⟨_, rfl⟩
  induction n using Nat.strongRecOn generalizing l l' with
  | ind n ih =>
    have hmet := h.next
    rcases hn : l.next.value with ⟨r, m⟩
    rcases hn' : l'.next.value with ⟨r', m'⟩
    rw [hn, hn'] at hmet
    cases hmet with
    | fault hr hr' hf =>
      simp only at hr hr'
      subst hr hr'
      rw [reading_error hn, reading_error hn']
      simp [hf]
    | joined hr hs hr' hf =>
      simp only at hr hr'
      subst hr hr'
      obtain ⟨ts, hts⟩ := head?_reading hn
      rw [reading_error hn', hts]
      simp [hs, hf]
    | @token t t' hr hr' ht hs hm =>
      simp only at hr hr'
      subst hr hr'
      have hkind : t'.isEof = t.isEof := by
        have := congrArg Token.kind ht
        simp only [Token.visible] at this
        simp [Token.isEof, Token.is, this]
      cases heof : t.isEof with
      | true =>
        rw [reading_endMark hn heof, reading_endMark hn' (hkind.trans heof)]
        simp [hs, ht]
      | false =>
        have hlt : m.rest.length < n := by
          rw [hlen]
          exact length_next_lt hn heof
        obtain ⟨htokens, hfailure⟩ := ih _ hlt hm rfl
        rw [reading_more hn heof, reading_more hn' (hkind.trans heof)]
        simp [hs, ht, htokens, hfailure]

end Reading

/-- The text with a carriage return in front of every newline has the tokens and the failure of the
text itself, unless that has a literal with a backslash at the end of a line. In front of the first
such literal both have the same tokens, and then the text with carriage returns fails at it. -/
theorem reading_withReturns (preferences : LexPreferences) {text : String}
    (h : '\r' ∉ text.toList) :
    let plain := (ofString preferences text).reading
    let returned := (ofString preferences (String.ofList (withReturns text.toList))).reading
    ((∀ t ∈ plain.tokens, t.isJoined = false) →
      returned.tokens.map Token.visible = plain.tokens.map Token.visible ∧
        returned.failure.map LexFailure.visible = plain.failure.map LexFailure.visible) ∧
    ∀ before t after, plain.tokens = before ++ t :: after →
      (∀ u ∈ before, u.isJoined = false) → t.isJoined = true →
      returned.tokens.map Token.visible = before.map Token.visible ∧
        returned.failure.map LexFailure.visible =
          some (.unterminatedLiteral t.beginLine t.beginColumn, t.span.start.visible) := by
  intro plain returned
  have hstart : Returned (ofString preferences text)
      (ofString preferences (String.ofList (withReturns text.toList))) :=
    ⟨by simp [ofString], h, rfl, rfl, rfl, rfl⟩
  obtain ⟨htokens, hfailure⟩ := hstart.reading
  constructor
  · intro hplain
    have htake : plain.tokens.takeWhile (!·.isJoined) = plain.tokens := by
      rw [List.takeWhile_eq_self_iff]
      simpa using hplain
    have hfind : plain.tokens.find? Token.isJoined = none := by
      simpa using hplain
    rw [htake] at htokens
    rw [hfind] at hfailure
    exact ⟨htokens, hfailure⟩
  · intro before t after hsplit hbefore ht
    have htake : plain.tokens.takeWhile (!·.isJoined) = before := by
      rw [hsplit, List.takeWhile_append_of_pos (by simpa using hbefore)]
      simp [ht]
    have hfind : plain.tokens.find? Token.isJoined = some t := by
      have hnone : before.find? Token.isJoined = none := by simpa using hbefore
      rw [hsplit, List.find?_append, hnone]
      simp [ht]
    rw [htake] at htokens
    rw [hfind] at hfailure
    exact ⟨htokens, hfailure⟩

theorem reading_withReturns_raw :
    let text := "#a \\\n b\nc /*\n*/ R\"(\n)\"\n\"d\\\ne"
    let plain := (ofString .full text).reading
    let returned := (ofString .full (String.ofList (withReturns text.toList))).reading
    ('\r' ∉ text.toList ∧ (∀ t ∈ plain.tokens, t.isJoined = false) ∧
      plain.tokens.map Token.image = ["c", "R\"(\n)\""] ∧
      plain.failure.map LexFailure.visible = some (.unterminatedLiteral 6 1, ⟨0, 6, 1⟩)) ∧
    returned.tokens.map Token.visible = plain.tokens.map Token.visible ∧
      returned.failure.map LexFailure.visible = plain.failure.map LexFailure.visible := by
  intro text plain returned
  have h : '\r' ∉ text.toList ∧ (∀ t ∈ plain.tokens, t.isJoined = false) ∧
      plain.tokens.map Token.image = ["c", "R\"(\n)\""] ∧
      plain.failure.map LexFailure.visible = some (.unterminatedLiteral 6 1, ⟨0, 6, 1⟩) := by
    decide +kernel
  exact ⟨h, (reading_withReturns .full h.1).1 h.2.1⟩

theorem joined_literal_unterminated :
    let text := "\"a\\\nb\""
    '\r' ∉ text.toList ∧ (ofString .full text).reading.failure = none ∧
      (ofString .full (String.ofList (withReturns text.toList))).reading.failure.map
        LexFailure.visible = some (.unterminatedLiteral 1 1, ⟨0, 1, 1⟩) := by
  decide +kernel

end Lexer
end SourceOutline
