import SourceOutline.Proofs.Lossless

/-! Reading goes on, or it stands still for good.
A step that does not move the cursor gives the end mark, or an error that the same step gives again
from where it leads. Every other step takes away some of the text, so that all results are alike from
some step on, and reading a whole text comes to an end. -/
namespace SourceOutline
namespace Lexer
open Lexeme Text
variable {l m b : Lexer} {r : Except LexFailure Token}

theorem skipBlanks_skipBlanks (l : Lexer) : l.skipBlanks.skipBlanks = l.skipBlanks := by
  have hstop : blanks (blanks l.rest).2 = ([], (blanks l.rest).2) := by
    by_cases hnil : (blanks l.rest).2 = []
    · rw [hnil]
      rfl
    · exact spanUnits_of_unit_eq_zero (unit_spanUnits_snd blankUnit l.rest hnil)
  simp [skipBlanks, moveOver, hstop, endsLine]

theorem Skips.skipBlanks_eq (h : Skips l b) : b.skipBlanks = b := by
  induction h with
  | blanks l => exact skipBlanks_skipBlanks l
  | pass _ _ _ ih => exact ih

/-- Where gathering has ended there is nothing more to gather. -/
theorem Gathers.next_again {found vs : List Trivia} (h : Gathers l found vs b) :
    b.next.value = b.readToken [] := by
  have hskip := h.skips.skipBlanks_eq
  have hstop : triviaKind? b.skipBlanks.lineStart b.skipBlanks.rest = none := by
    rw [hskip]
    exact h.after.1
  rw [value_next, gather_stop hstop, hskip]
  rfl

/-- Whether a result is repeated by every later step. -/
def settles : Except LexFailure Token → Bool
  | .ok t => t.isEof
  | .error f =>
    match f.error with
    | .invalidCharacter .. | .tooManyTokens _ => true
    | .unterminatedLiteral .. | .unterminatedComment .. | .identifierTooLong _ => false

def bare (r : Except LexFailure Token) : Except LexFailure Token :=
  r.map fun t => { t with trivia := [] }

theorem settles_of_faulty {fault : Fault} {cs : List Char} (h : Faulty fault cs) {p : Position}
    {s : Span} : settles (.error ⟨fault.errorAt p, s⟩) = false := by
  cases h <;> rfl

theorem Step.again (h : Step l r m) (hr : settles r = true) : m.next.value = (bare r, m) := by
  cases h with
  | comment => cases hr
  | endMark hg hrest =>
    rw [hg.next_again, readToken_nil hrest]
    rfl
  | token hg hrest ho =>
    rw [settles, tokenItem_isEof ho] at hr
    cases hr
  | @fault b vs c cs fault hg hrest hi ho =>
    rcases token_fault ho with ⟨rfl, htaken, hleft⟩ | ⟨hf, -⟩
    · have hstay : b.moveOver (Lexeme.token c cs).taken (Lexeme.token c cs).rest = b := by
        rw [htaken, hleft, ← hrest]
        rfl
      rw [hstay, hg.next_again, readToken_fault hrest hi ho, hstay]
      rfl
    · rw [settles_of_faulty hf] at hr
      cases hr
  | full hg hrest hi =>
    rw [hg.next_again, readToken_full hrest hi]
    rfl

/-! How far a step moves the cursor. -/

theorem offset_moveOver (l : Lexer) (taken rest : List Char) :
    (l.moveOver taken rest).position.offset = l.position.offset + byteSize taken :=
  Position.offset_advanceAll _ _

theorem offset_le_skipBlanks (l : Lexer) : l.position.offset ≤ l.skipBlanks.position.offset :=
  Nat.le.intro (offset_moveOver l (blanks l.rest).1 (blanks l.rest).2).symm

theorem Skips.offset_le (h : Skips l b) : l.position.offset ≤ b.position.offset := by
  induction h with
  | blanks l => exact offset_le_skipBlanks l
  | @pass l m kind k _ _ _ ih =>
    have hpass := offset_moveOver l.skipBlanks (trivia kind l.skipBlanks.rest).taken
      (trivia kind l.skipBlanks.rest).rest
    have hskip := offset_le_skipBlanks l
    exact Nat.le_trans (Nat.le_trans hskip (Nat.le.intro hpass.symm)) ih

theorem Skips.lt_offset_moveOver (h : Skips l b) {taken : List Char} (hne : taken ≠ [])
    (rest : List Char) : l.position.offset < (b.moveOver taken rest).position.offset := by
  have hle := h.offset_le
  have hpos := byteSize_pos hne
  rw [offset_moveOver]
  omega

theorem Step.offset_lt (h : Step l r m) (hr : settles r = false) :
    l.position.offset < m.position.offset := by
  cases h with
  | @comment b hb hk ho =>
    refine hb.lt_offset_moveOver ?_ _
    intro hnil
    rw [hnil] at hk
    cases hk
  | endMark => cases hr
  | @token b vs c cs kind hg hrest ho =>
    exact hg.skips.lt_offset_moveOver (token_taken_ne_nil ho) (Lexeme.token c cs).rest
  | fault hg hrest hi ho =>
    rcases token_fault ho with ⟨rfl, -, -⟩ | ⟨-, hne⟩
    · cases hr
    · exact hg.skips.lt_offset_moveOver hne _
  | full => cases hr

theorem Step.offset_le (h : Step l r m) : l.position.offset ≤ m.position.offset := by
  cases hr : settles r with
  | false => exact Nat.le_of_lt (h.offset_lt hr)
  | true =>
    cases h with
    | comment => cases hr
    | endMark hg _ => exact hg.skips.offset_le
    | token hg hrest ho =>
      rw [settles, tokenItem_isEof ho] at hr
      cases hr
    | @fault b vs c cs fault hg _ _ _ =>
      exact Nat.le_trans hg.skips.offset_le (Nat.le.intro (offset_moveOver b _ _).symm)
    | full hg _ _ => exact hg.skips.offset_le

/-! Many steps, whatever they give. -/

def after (l : Lexer) : Nat → Lexer
  | 0 => l
  | n + 1 => (l.after n).next.value.2

def answer (l : Lexer) (n : Nat) : Except LexFailure Token := (l.after n).next.value.1

theorem step_after (l : Lexer) (n : Nat) : Step (l.after n) (l.answer n) (l.after (n + 1)) :=
  step_next rfl

theorem preferences_after (l : Lexer) (n : Nat) : (l.after n).preferences = l.preferences := by
  induction n with
  | zero => rfl
  | succ n ih => exact (preferences_next_snd _).trans ih

theorem KeepsAll.after {l : Lexer} (h : l.KeepsAll) (n : Nat) : (l.after n).KeepsAll := by
  rw [KeepsAll, preferences_after]
  exact h

theorem At.after {text : List Char} (h : l.At text) (n : Nat) : (l.after n).At text := by
  induction n with
  | zero => exact h
  | succ n ih => exact ih.step (step_after l n)

theorem At.offset_le {text : List Char} (h : l.At text) : l.position.offset ≤ byteSize text := by
  obtain ⟨before, htext, hpos⟩ := h
  have hoffset : l.position.offset = byteSize before := by
    rw [hpos, Position.offset_advanceAll]
    exact Nat.zero_add _
  rw [← htext, byteSize_append]
  omega

theorem after_of_settles {n : Nat} (h : settles (l.answer n) = true) (k : Nat) :
    l.after (n + 1 + k) = l.after (n + 1) ∧ l.answer (n + 1 + k) = bare (l.answer n) := by
  have hagain := (step_after l n).again h
  have hafter : l.after (n + 1 + k) = l.after (n + 1) := by
    induction k with
    | zero => rfl
    | succ k ih =>
      calc l.after (n + 1 + (k + 1)) = (l.after (n + 1 + k)).next.value.2 := rfl
        _ = (l.after (n + 1)).next.value.2 := by rw [ih]
        _ = l.after (n + 1) := by rw [hagain]
  refine ⟨hafter, ?_⟩
  rw [answer, hafter, hagain]

theorem offset_after {n : Nat} (h : ∀ i < n, settles (l.answer i) = false) :
    l.position.offset + n ≤ (l.after n).position.offset := by
  induction n with
  | zero => exact Nat.le_refl _
  | succ n ih =>
    have hn := ih fun i hi => h i (Nat.lt_succ_of_lt hi)
    have hlt := (step_after l n).offset_lt (h n (Nat.lt_succ_self n))
    omega

/-- A text has no more steps than bytes before its results settle. -/
theorem At.exists_settles {text : List Char} (h : l.At text) :
    ∃ n ≤ byteSize text, settles (l.answer n) = true := by
  refine Classical.byContradiction fun hnever => ?_
  have hmove : ∀ i < byteSize text + 1, settles (l.answer i) = false := by
    intro i hi
    cases hi' : settles (l.answer i) with
    | false => rfl
    | true => exact absurd ⟨i, Nat.le_of_lt_succ hi, hi'⟩ hnever
  have hfar := offset_after hmove
  have hend := (h.after (byteSize text + 1)).offset_le
  omega

/-! Reading a whole text. -/

theorem At.takes {text : List Char} {ts : List Token} (h : l.At text)
    (ht : Takes Lexer.next l ts m) : m.At text := by
  induction ht with
  | nil => exact h
  | cons hn _ _ ih => exact ih (h.next hn)

theorem offset_takes {ts : List Token} (h : Takes next l ts m) :
    l.position.offset + ts.length ≤ m.position.offset := by
  induction h with
  | nil => exact Nat.le_refl _
  | cons hn ht _ ih =>
    have hlt := (step_next hn).offset_lt ht
    rw [List.length_cons]
    omega

/-- Tokens are taken up to the end mark or to the first failure. -/
theorem takes_of_tokensFrom (l : Lexer) (found : List Token) (log : List Event) :
    ∃ ts m, Takes next l ts m ∧
      ((∃ t, m.next.value.1 = .ok t ∧ t.isEof = true ∧
        (l.tokensFrom found log).value.1 = .ok (found.reverse ++ ts)) ∨
      ∃ f, m.next.value.1 = .error f ∧ (l.tokensFrom found log).value.1 = .error f) := by
  fun_induction tokensFrom l found log with
  | case1 l found log r f m hn => exact ⟨[], l, .nil, .inr ⟨f, congrArg Prod.fst hn, rfl⟩⟩
  | case2 l found log r t m hn ht =>
    exact ⟨[], l, .nil, .inl ⟨t, congrArg Prod.fst hn, ht, by simp⟩⟩
  | case3 l found log r t m hn ht _ ih =>
    obtain ⟨ts, u, htakes, hend⟩ := ih
    refine ⟨t :: ts, u, .cons hn (eq_false_of_ne_true ht) htakes, ?_⟩
    simpa using hend

theorem value_tokenize (text : String) :
    (tokenize text).value =
      ((ofString .full text).tokensFrom [] []).value.1.mapError LexFailure.error := by
  unfold tokenize
  dsimp only
  split
  · next h => rw [h]; rfl
  · next h => rw [h]; rfl

/-- The cursor never goes back, and it goes on with every result but the end mark, a character that
starts no token and a token too many. These come again and again from then on, at the same place and
with the same counts, the end mark without trivia. So the results are all alike when there were more
of them than bytes, and tokens are read up to an end mark or a failure that is met by then. -/
theorem lexing_progresses (l : Lexer) (text : String) :
    let s := l.reset text
    (∀ n, (s.after n).position.offset ≤ (s.after (n + 1)).position.offset) ∧
    (∀ n, settles (s.answer n) = false →
      (s.after n).position.offset < (s.after (n + 1)).position.offset) ∧
    (∀ n, settles (s.answer n) = true → ∀ k > n,
      s.answer k = bare (s.answer n) ∧ s.after k = s.after (n + 1)) ∧
    (∀ n > text.utf8ByteSize, ∀ k > text.utf8ByteSize,
      s.answer n = s.answer k ∧ s.after n = s.after k) ∧
    ∃ ts m, Takes next (ofString .full text) ts m ∧ ts.length ≤ text.utf8ByteSize ∧
      ((∃ t, m.next.value.1 = .ok t ∧ t.isEof = true ∧ (tokenize text).value = .ok ts) ∨
        ∃ f, m.next.value.1 = .error f ∧ (tokenize text).value = .error f.error) := by
  intro s
  have hat : s.At text.toList := at_reset l text
  have hlater : ∀ n, settles (s.answer n) = true → ∀ k > n,
      s.answer k = bare (s.answer n) ∧ s.after k = s.after (n + 1) := by
    intro n hn k hk
    obtain ⟨j, rfl⟩ := Nat.exists_eq_add_of_lt hk
    rw [Nat.add_right_comm]
    exact (after_of_settles hn j).symm
  refine ⟨fun n => (step_after s n).offset_le, fun n hn => (step_after s n).offset_lt hn, hlater,
    ?_, ?_⟩
  · obtain ⟨i, hi, hsettles⟩ := hat.exists_settles
    rw [byteSize_toList] at hi
    intro n hn k hk
    obtain ⟨hnanswer, hnafter⟩ := hlater i hsettles n (Nat.lt_of_le_of_lt hi hn)
    obtain ⟨hkanswer, hkafter⟩ := hlater i hsettles k (Nat.lt_of_le_of_lt hi hk)
    exact ⟨hnanswer.trans hkanswer.symm, hnafter.trans hkafter.symm⟩
  · obtain ⟨ts, m, htakes, hend⟩ := takes_of_tokensFrom (ofString .full text) [] []
    have hlength : 0 + ts.length ≤ m.position.offset := offset_takes htakes
    have hbound := ((at_reset (ofString .full text) text).takes htakes).offset_le
    rw [byteSize_toList] at hbound
    refine ⟨ts, m, htakes, by omega, ?_⟩
    rw [value_tokenize]
    rcases hend with ⟨t, ht, heof, hvalue⟩ | ⟨f, hf, hvalue⟩
    · exact .inl ⟨t, ht, heof, by rw [hvalue]; rfl⟩
    · exact .inr ⟨f, hf, by rw [hvalue]; rfl⟩

/-- A literal without an end is left behind, and a character that starts no token is not. -/
theorem lexing_progresses_stuck :
    let s := (ofString .full "").reset "a 'x\n/*c*/@ b"
    (settles (s.answer 1) = false ∧
      (s.after 1).position.offset < (s.after 2).position.offset) ∧
    settles (s.answer 2) = true ∧ (s.after 3).metrics.comments = 1 ∧
      ∀ k > 2, s.answer k = bare (s.answer 2) ∧ s.after k = s.after 3 := by
  intro s
  obtain ⟨_, hmove, hstay, _⟩ := lexing_progresses (ofString .full "") "a 'x\n/*c*/@ b"
  have hgoes : settles (s.answer 1) = false := by decide +kernel
  have hstays : settles (s.answer 2) = true := by decide +kernel
  exact ⟨⟨hgoes, hmove 1 hgoes⟩, hstays, by decide +kernel, hstay 2 hstays⟩

end Lexer
end SourceOutline
