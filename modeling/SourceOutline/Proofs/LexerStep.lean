import SourceOutline.Lexer

/-! What one step of reading a text can do. -/
namespace SourceOutline

namespace Lexeme

def blankChars : List Char := [' ', '\t', '\r', '\n', '\x0b', '\x0c']

theorem isBlankChar_iff {c : Char} : isBlankChar c = true ↔ c ∈ blankChars := by
  simp only [blankChars, isBlankChar, Bool.or_eq_true, decide_eq_true_eq, List.mem_cons,
    List.not_mem_nil]
  grind

theorem spliceLength_cons (c : Char) (cs : List Char) :
    spliceLength (c :: cs) =
      if c = '\\' then
        if cs.head? = some '\n' then 2 else if cs.take 2 = ['\r', '\n'] then 3 else 0
      else 0 := by
  unfold spliceLength
  split
  · next h => cases h; simp
  · next h => cases h; simp
  · next hnewline hreturn =>
    by_cases hc : c = '\\'
    · subst hc
      match cs with
      | [] => rfl
      | [d] => simp_all
      | d :: e :: cs => simp_all
    · rw [if_neg hc]

theorem triviaKind?_cons (lineStart : Bool) (c : Char) (cs : List Char) :
    triviaKind? lineStart (c :: cs) =
      if c = '/' then
        if cs.head? = some '/' then some .lineComment
        else if cs.head? = some '*' then some .blockComment
        else none
      else if c = '#' ∧ lineStart = true then some .directive
      else none := by
  unfold triviaKind?
  split
  · next h => cases h; simp
  · next h => cases h; simp
  · next h => cases h; simp
  · next hline hblock hhash =>
    have hc : c ≠ '#' := by
      rintro rfl
      exact hhash cs rfl
    have hd : c = '/' → cs.head? ≠ some '/' ∧ cs.head? ≠ some '*' := by
      rintro rfl
      cases cs with
      | nil => simp
      | cons d cs => constructor <;> rintro ⟨⟩ <;> simp_all
    grind

theorem numberKind_isLiteral (image : List Char) : (numberKind image).isLiteral = true := by
  unfold numberKind
  dsimp only
  split <;> split <;> rfl

theorem literalKind_isLiteral (quote : Char) : (literalKind quote).isLiteral = true := by
  unfold literalKind
  split <;> rfl

theorem quoted_isLiteral {opening cs : List Char} {quote : Char} {kind : TokenKind}
    (h : (quoted opening quote cs).outcome = .ok kind) : kind.isLiteral = true := by
  unfold quoted at h
  dsimp only at h
  split at h
  · cases h
  · split at h
    · cases h
      exact literalKind_isLiteral quote
    · cases h

theorem raw_isLiteral {opening cs : List Char} {kind : TokenKind}
    (h : (raw opening cs).outcome = .ok kind) : kind.isLiteral = true := by
  unfold raw rawBody at h
  dsimp only at h
  split at h
  · split at h
    · cases h
    · cases h
      rfl
  · cases h

theorem word_kind {cs : List Char} {kind : TokenKind} (h : (word cs).outcome = .ok kind) :
    kind.isLiteral = true ∨
      wordKind (cs.takeWhile isIdentifierPart) = .ok kind ∧
        (word cs).taken = cs.takeWhile isIdentifierPart := by
  unfold word at h ⊢
  dsimp only at h ⊢
  split at h
  · exact .inr ⟨h, rfl⟩
  · split at h
    · exact .inl (quoted_isLiteral h)
    · next hquoted =>
      split at h
      · exact .inl (raw_isLiteral h)
      · next hraw =>
        rw [if_neg hquoted, if_neg hraw]
        exact .inr ⟨h, rfl⟩

theorem symbols_isPunctuation : ∀ s ∈ symbols, s.2.isPunctuation = true := by decide

theorem symbol_isPunctuation {c : Char} {cs : List Char} {kind : TokenKind}
    (h : (symbol c cs).outcome = .ok kind) : kind.isPunctuation = true := by
  unfold symbol at h
  split at h
  · next s hs =>
    cases h
    exact symbols_isPunctuation s (List.mem_of_find?_eq_some hs)
  · cases h

theorem token_kind {c : Char} {cs : List Char} {kind : TokenKind}
    (h : (token c cs).outcome = .ok kind) :
    kind.isLiteral = true ∨ kind.isPunctuation = true ∨
      isIdentifierStart c = true ∧ wordKind ((c :: cs).takeWhile isIdentifierPart) = .ok kind ∧
        (token c cs).taken = (c :: cs).takeWhile isIdentifierPart := by
  unfold token at h ⊢
  split at h
  · cases h
    exact .inl (numberKind_isLiteral _)
  · next hn =>
    rw [if_neg hn]
    split at h
    · next hi =>
      rw [if_pos hi]
      exact (word_kind h).imp_right fun hw => .inr ⟨hi, hw⟩
    · split at h
      · exact .inl (quoted_isLiteral h)
      · exact .inr (.inl (symbol_isPunctuation h))

theorem wordKind_eq_identifier {w : List Char} :
    wordKind w = .ok .identifier ↔
      w.length ≤ identifierLimit ∧ Vocabulary.isKeyword (String.ofList w) = false := by
  unfold wordKind
  split
  · next hlong => simp [Nat.not_le.2 hlong]
  · next hshort => split <;> simp_all

theorem token_ne_eof (c : Char) (cs : List Char) : (token c cs).outcome ≠ .ok .eof := by
  intro h
  rcases token_kind h with hliteral | hpunctuation | ⟨-, hword, -⟩
  · cases hliteral
  · cases hpunctuation
  · unfold wordKind at hword
    split at hword
    · cases hword
    · split at hword <;> cases hword

/-- Only a comment without an end is wrong, and all of the text is taken for it. -/
theorem trivia_fault {kind : TriviaKind} {cs : List Char} {fault : Fault}
    (h : (trivia kind cs).outcome = .error fault) :
    kind = .blockComment ∧ fault = .unterminatedComment ∧
      (Text.spanUnits (Text.untilUnit ['*', '/']) (cs.drop 2)).2 = [] ∧
      (trivia kind cs).taken = cs ∧ (trivia kind cs).rest = [] := by
  cases kind with
  | blockComment =>
    refine ⟨rfl, ?_⟩
    simp only [trivia, blockComment] at h ⊢
    split
    · next hend =>
      rw [if_pos hend] at h
      cases h
      exact ⟨rfl, List.isEmpty_iff.1 hend, rfl, rfl⟩
    · next hend =>
      rw [if_neg hend] at h
      cases h
  | lineComment => cases h
  | directive => cases h

def opensLiteral (mark : List Char) (quote : Char) : Bool :=
  isQuote quote && (mark.isEmpty || quotedMarks.contains mark) ||
    quote = '\x22' && rawMarks.contains mark

/-- What a text starts with that is a token in part only, or too long for one. -/
inductive Faulty : Fault → List Char → Prop
  | literal {mark cs : List Char} {quote : Char} (h : opensLiteral mark quote = true) :
      Faulty .unterminatedLiteral (mark ++ quote :: cs)
  | word {w cs : List Char} (hw : ∀ c ∈ w, isIdentifierPart c = true)
      (h : identifierLimit < w.length) : Faulty (.identifierTooLong w.length) (w ++ cs)

theorem quoted_fault {opening cs : List Char} {quote : Char} {fault : Fault}
    (h : (quoted opening quote cs).outcome = .error fault) : fault = .unterminatedLiteral := by
  unfold quoted at h
  dsimp only at h
  split at h
  · cases h; rfl
  · split at h
    · cases h
    · cases h; rfl

theorem raw_fault {opening cs : List Char} {fault : Fault}
    (h : (raw opening cs).outcome = .error fault) : fault = .unterminatedLiteral := by
  unfold raw rawBody at h
  dsimp only at h
  split at h
  · split at h
    · cases h; rfl
    · cases h
  · cases h; rfl

theorem faulty_of_wordKind {w : List Char} {fault : Fault} (h : wordKind w = .error fault)
    (hw : ∀ c ∈ w, isIdentifierPart c = true) (cs : List Char) : Faulty fault (w ++ cs) := by
  unfold wordKind at h
  split at h
  · next hlong =>
    cases h
    exact .word hw hlong
  · split at h <;> cases h

theorem faulty_of_word {cs : List Char} {fault : Fault} (h : (word cs).outcome = .error fault) :
    Faulty fault cs := by
  have hcs := List.takeWhile_append_dropWhile (p := isIdentifierPart) (l := cs)
  have hw : ∀ c ∈ cs.takeWhile isIdentifierPart, isIdentifierPart c = true := fun c hc =>
    List.all_eq_true.1 List.all_takeWhile c hc
  unfold word at h
  dsimp only at h
  split at h
  · next hnil =>
    rw [hnil] at hcs
    rw [← hcs]
    exact faulty_of_wordKind h hw []
  · next q r hr =>
    rw [hr] at hcs
    rw [← hcs]
    split at h
    · next hq =>
      rw [quoted_fault h]
      exact .literal (by simp_all [opensLiteral])
    · split at h
      · next hq =>
        rw [raw_fault h]
        exact .literal (by simp_all [opensLiteral])
      · exact faulty_of_wordKind h hw _

/-- A character that starts no token is left where it is. Something of all else that is wrong is
taken. -/
theorem token_fault {c : Char} {cs : List Char} {fault : Fault}
    (h : (token c cs).outcome = .error fault) :
    (fault = .invalidCharacter c ∧ (token c cs).taken = [] ∧ (token c cs).rest = c :: cs) ∨
      (Faulty fault (c :: cs) ∧ (token c cs).taken ≠ []) := by
  unfold token at h ⊢
  split
  · next hn =>
    rw [if_pos hn] at h
    cases h
  · next hn =>
    rw [if_neg hn] at h
    split
    · next hi =>
      rw [if_pos hi] at h
      exact .inr ⟨faulty_of_word h, word_taken_ne_nil hi cs⟩
    · next hi =>
      rw [if_neg hi] at h
      split
      · next hq =>
        rw [if_pos hq] at h
        have hopen : Faulty .unterminatedLiteral ([] ++ c :: cs) :=
          .literal (by simp [opensLiteral, hq])
        rw [quoted_fault h]
        exact .inr ⟨hopen, quoted_taken_ne_nil (by simp) _ _⟩
      · next hq =>
        rw [if_neg hq] at h
        unfold symbol at h ⊢
        split
        · next hs =>
          rw [hs] at h
          cases h
        · next hs =>
          rw [hs] at h
          cases h
          exact .inl ⟨rfl, rfl, rfl⟩

end Lexeme

namespace Lexer
open Lexeme
variable {l m b : Lexer} {found vs : List Trivia} {t : Token}

theorem gather_stop (h : triviaKind? l.skipBlanks.lineStart l.skipBlanks.rest = none)
    (found : List Trivia) : l.gather found = (.ok found.reverse, l.skipBlanks) := by
  rw [gather]
  dsimp only
  split
  · rfl
  · next hk => rw [h] at hk; cases hk

def triviaItem (l : Lexer) (kind : TriviaKind) : Trivia :=
  ⟨kind, String.ofList (trivia kind l.rest).taken, l.spanOver (trivia kind l.rest).taken⟩

theorem gather_pass {kind k : TriviaKind}
    (h : triviaKind? l.skipBlanks.lineStart l.skipBlanks.rest = some kind)
    (hs : (trivia kind l.skipBlanks.rest).outcome = .ok k) (found : List Trivia) :
    l.gather found =
      (l.skipBlanks.passTrivia kind (trivia kind l.skipBlanks.rest)).gather
        (if l.skipBlanks.keeps kind then l.skipBlanks.triviaItem kind :: found else found) := by
  rw [gather]
  dsimp only
  split
  · next hk => rw [h] at hk; cases hk
  · next hk =>
    rw [h] at hk
    cases hk
    split
    · next ho => rw [hs] at ho; cases ho
    · rfl

theorem gather_fault {kind : TriviaKind} {fault : Fault}
    (h : triviaKind? l.skipBlanks.lineStart l.skipBlanks.rest = some kind)
    (hs : (trivia kind l.skipBlanks.rest).outcome = .error fault) (found : List Trivia) :
    l.gather found =
      let s := trivia kind l.skipBlanks.rest
      (.error ⟨fault.errorAt l.skipBlanks.position, l.skipBlanks.spanOver s.taken⟩,
        l.skipBlanks.moveOver s.taken s.rest) := by
  rw [gather]
  dsimp only
  split
  · next hk => rw [h] at hk; cases hk
  · next hk =>
    rw [h] at hk
    cases hk
    split
    · next ho => rw [hs] at ho; cases ho; rfl
    · next ho => rw [hs] at ho; cases ho

/-- Gathering without faults, one comment or directive at a time. -/
inductive Gathers : Lexer → List Trivia → List Trivia → Lexer → Prop
  | stop {l : Lexer} {found : List Trivia}
      (h : triviaKind? l.skipBlanks.lineStart l.skipBlanks.rest = none) :
      Gathers l found found.reverse l.skipBlanks
  | pass {l m : Lexer} {found vs : List Trivia} {kind k : TriviaKind}
      (h : triviaKind? l.skipBlanks.lineStart l.skipBlanks.rest = some kind)
      (hs : (trivia kind l.skipBlanks.rest).outcome = .ok k)
      (hg : Gathers (l.skipBlanks.passTrivia kind (trivia kind l.skipBlanks.rest))
        (if l.skipBlanks.keeps kind then l.skipBlanks.triviaItem kind :: found else found) vs m) :
      Gathers l found vs m

theorem Gathers.gather_eq (h : Gathers l found vs m) : l.gather found = (.ok vs, m) := by
  induction h with
  | stop h => exact gather_stop h _
  | pass h hs _ ih => rw [gather_pass h hs, ih]

theorem gathers_of_gather (h : l.gather found = (.ok vs, m)) : Gathers l found vs m := by
  obtain ⟨n, hn⟩ : ∃ n, n = l.rest.length := ⟨_, rfl⟩
  induction n using Nat.strongRecOn generalizing l found with
  | ind n ih =>
    cases hk : triviaKind? l.skipBlanks.lineStart l.skipBlanks.rest with
    | none =>
      rw [gather_stop hk] at h
      cases h
      exact .stop hk
    | some kind =>
      cases ho : (trivia kind l.skipBlanks.rest).outcome with
      | error fault =>
        rw [gather_fault hk ho] at h
        cases h
      | ok k =>
        rw [gather_pass hk ho] at h
        refine .pass hk ho (ih _ ?_ h rfl)
        rw [hn]
        exact Nat.lt_of_lt_of_le (length_trivia_lt hk) (length_skipBlanks_le l)

/-- Gathering ends in front of a token or at the end of the text. -/
theorem Gathers.after (h : Gathers l found vs m) :
    triviaKind? m.lineStart m.rest = none ∧ m.issued = l.issued ∧
      (l.lineStart = true → m.lineStart = true) := by
  induction h with
  | stop h => exact ⟨h, rfl, fun hl => by simp [skipBlanks, hl]⟩
  | pass _ _ _ ih =>
    obtain ⟨hend, hissued, hstart⟩ := ih
    exact ⟨hend, hissued, fun hl => hstart (by simp [passTrivia, moveOver, skipBlanks, hl])⟩

inductive Skips : Lexer → Lexer → Prop
  | blanks (l : Lexer) : Skips l l.skipBlanks
  | pass {l m : Lexer} {kind k : TriviaKind}
      (h : triviaKind? l.skipBlanks.lineStart l.skipBlanks.rest = some kind)
      (hs : (trivia kind l.skipBlanks.rest).outcome = .ok k)
      (hm : Skips (l.skipBlanks.passTrivia kind (trivia kind l.skipBlanks.rest)) m) : Skips l m

theorem Gathers.skips (h : Gathers l found vs m) : Skips l m := by
  induction h with
  | stop _ => exact .blanks _
  | pass h hs _ ih => exact .pass h hs ih

/-- Gathering fails at a comment without an end only. -/
theorem gather_error {f : LexFailure} (h : l.gather found = (.error f, m)) :
    ∃ b, Skips l b ∧ triviaKind? b.lineStart b.rest = some .blockComment ∧
      (trivia .blockComment b.rest).outcome = .error .unterminatedComment ∧
      f = ⟨.unterminatedComment b.position.line b.position.column, b.spanOver b.rest⟩ ∧
      m = b.moveOver b.rest [] := by
  fun_induction gather l found with
  | case1 => cases h
  | case2 l found b kind hk s fault hf =>
    obtain ⟨rfl, rfl, -, htaken, hrest⟩ := trivia_fault hf
    cases h
    exact ⟨b, .blanks l, hk, hf, by rw [htaken]; rfl, by rw [htaken, hrest]⟩
  | case3 l found b kind hk s k hok _ _ ih =>
    obtain ⟨u, hu, hend⟩ := ih h
    exact ⟨u, .pass hk hok hu, hend⟩

@[simp] theorem preferences_gather (l : Lexer) (found : List Trivia) :
    (l.gather found).2.preferences = l.preferences := by
  fun_induction gather l found with
  | case1 => rfl
  | case2 => rfl
  | case3 _ _ _ _ _ _ _ _ _ _ ih => exact ih

@[simp] theorem preferences_readToken (l : Lexer) (vs : List Trivia) :
    (l.readToken vs).2.preferences = l.preferences := by
  unfold readToken
  split
  · rfl
  · split
    · dsimp only
      split <;> rfl
    · rfl

theorem readToken_nil (h : l.rest = []) (vs : List Trivia) :
    l.readToken vs = (.ok ⟨.eof, "", .point l.position, vs⟩, l) := by
  rw [readToken, h]

def tokenItem (l : Lexer) (kind : TokenKind) (taken : List Char) (vs : List Trivia) : Token :=
  ⟨kind, String.ofList taken, l.spanOver taken, vs⟩

theorem readToken_cons {c : Char} {cs : List Char} {kind : TokenKind} (h : l.rest = c :: cs)
    (hi : l.issued < LexError.tokenLimit) (hs : (token c cs).outcome = .ok kind)
    (vs : List Trivia) :
    l.readToken vs =
      (.ok (l.tokenItem kind (token c cs).taken vs),
        l.passToken (token c cs) (l.tokenItem kind (token c cs).taken vs)) := by
  rw [readToken, h]
  dsimp only
  rw [if_pos hi]
  split
  · next ho => rw [hs] at ho; cases ho
  · next ho => rw [hs] at ho; cases ho; rfl

theorem readToken_fault {c : Char} {cs : List Char} {fault : Fault} (h : l.rest = c :: cs)
    (hi : l.issued < LexError.tokenLimit) (hs : (token c cs).outcome = .error fault)
    (vs : List Trivia) :
    l.readToken vs =
      (.error ⟨fault.errorAt l.position, l.spanOver (token c cs).taken⟩,
        l.moveOver (token c cs).taken (token c cs).rest) := by
  rw [readToken, h]
  dsimp only
  rw [if_pos hi]
  split
  · next ho => rw [hs] at ho; cases ho; rfl
  · next ho => rw [hs] at ho; cases ho

theorem readToken_full {c : Char} {cs : List Char} (h : l.rest = c :: cs)
    (hi : ¬ l.issued < LexError.tokenLimit) (vs : List Trivia) :
    l.readToken vs = (.error ⟨.tooManyTokens l.issued, .point l.position⟩, l) := by
  rw [readToken, h]
  dsimp only
  rw [if_neg hi]

theorem readToken_cases (h : l.readToken vs = (.ok t, m)) :
    (l.rest = [] ∧ t = ⟨.eof, "", .point l.position, vs⟩ ∧ m = l) ∨
      ∃ c cs kind, l.rest = c :: cs ∧ l.issued < LexError.tokenLimit ∧
        (token c cs).outcome = .ok kind ∧ t = l.tokenItem kind (token c cs).taken vs ∧
        m = l.passToken (token c cs) t := by
  cases hr : l.rest with
  | nil =>
    rw [readToken_nil hr] at h
    cases h
    exact .inl ⟨rfl, rfl, rfl⟩
  | cons c cs =>
    rw [readToken, hr] at h
    dsimp only at h
    split at h
    · next hi =>
      split at h
      · cases h
      · next kind ho =>
        cases h
        exact .inr ⟨c, cs, kind, rfl, hi, ho, rfl, rfl⟩
    · cases h

theorem trivia_readToken (h : l.readToken vs = (.ok t, m)) : t.trivia = vs := by
  rcases readToken_cases h with ⟨_, rfl, _⟩ | ⟨_, _, _, _, _, _, rfl, _⟩
  · rfl
  · rfl

theorem tokenItem_isEof {c : Char} {cs : List Char} {kind : TokenKind}
    (hs : (token c cs).outcome = .ok kind) (taken : List Char) (vs : List Trivia) :
    (l.tokenItem kind taken vs).isEof = false := by
  have hne : kind ≠ .eof := fun h => token_ne_eof c cs (h ▸ hs)
  simpa [tokenItem, Token.isEof, Token.is] using hne

theorem Gathers.next_eq {b : Lexer} (h : Gathers l [] vs b) : l.next.value = b.readToken vs := by
  rw [value_next, h.gather_eq]

theorem next_cases (h : l.next.value = (.ok t, m)) :
    ∃ vs b, Gathers l [] vs b ∧ b.readToken vs = (.ok t, m) := by
  rw [value_next] at h
  split at h
  · cases h
  · next vs b hg => exact ⟨vs, b, gathers_of_gather hg, h⟩

/-- What one step gives and where it leads. -/
inductive Step (l : Lexer) : Except LexFailure Token → Lexer → Prop
  | comment {b : Lexer} (hb : Skips l b) (hk : triviaKind? b.lineStart b.rest = some .blockComment)
      (ho : (trivia .blockComment b.rest).outcome = .error .unterminatedComment) :
      Step l (.error ⟨.unterminatedComment b.position.line b.position.column, b.spanOver b.rest⟩)
        (b.moveOver b.rest [])
  | endMark {b : Lexer} {vs : List Trivia} (hg : Gathers l [] vs b) (hr : b.rest = []) :
      Step l (.ok ⟨.eof, "", .point b.position, vs⟩) b
  | token {b : Lexer} {vs : List Trivia} {c : Char} {cs : List Char} {kind : TokenKind}
      (hg : Gathers l [] vs b) (hr : b.rest = c :: cs) (ho : (token c cs).outcome = .ok kind) :
      Step l (.ok (b.tokenItem kind (Lexeme.token c cs).taken vs))
        (b.passToken (Lexeme.token c cs) (b.tokenItem kind (Lexeme.token c cs).taken vs))
  | fault {b : Lexer} {vs : List Trivia} {c : Char} {cs : List Char} {fault : Fault}
      (hg : Gathers l [] vs b) (hr : b.rest = c :: cs) (hi : b.issued < LexError.tokenLimit)
      (ho : (Lexeme.token c cs).outcome = .error fault) :
      Step l (.error ⟨fault.errorAt b.position, b.spanOver (Lexeme.token c cs).taken⟩)
        (b.moveOver (Lexeme.token c cs).taken (Lexeme.token c cs).rest)
  | full {b : Lexer} {vs : List Trivia} {c : Char} {cs : List Char} (hg : Gathers l [] vs b)
      (hr : b.rest = c :: cs) (hi : ¬ b.issued < LexError.tokenLimit) :
      Step l (.error ⟨.tooManyTokens b.issued, .point b.position⟩) b

theorem step_next {r : Except LexFailure Token} (h : l.next.value = (r, m)) : Step l r m := by
  rw [value_next] at h
  split at h
  · next f u hgather =>
    obtain ⟨b, hb, hk, ho, rfl, rfl⟩ := gather_error hgather
    cases h
    exact .comment hb hk ho
  · next vs b hgather =>
    have hg := gathers_of_gather hgather
    cases hr : b.rest with
    | nil =>
      rw [readToken_nil hr] at h
      cases h
      exact .endMark hg hr
    | cons c cs =>
      by_cases hi : b.issued < LexError.tokenLimit
      · cases ho : (Lexeme.token c cs).outcome with
        | ok kind =>
          rw [readToken_cons hr hi ho] at h
          cases h
          exact .token hg hr ho
        | error fault =>
          rw [readToken_fault hr hi ho] at h
          cases h
          exact .fault hg hr hi ho
      · rw [readToken_full hr hi] at h
        cases h
        exact .full hg hr hi

/-- Preferences outlive every step, a failing one too. -/
theorem preferences_next_snd (l : Lexer) : l.next.value.2.preferences = l.preferences := by
  have hg := preferences_gather l []
  rw [value_next]
  split
  · next hb => rw [hb] at hg; exact hg
  · next vs b hb =>
    rw [hb] at hg
    exact (preferences_readToken b vs).trans hg

theorem preferences_next (h : l.next.value = (.ok t, m)) : m.preferences = l.preferences := by
  have hp := preferences_next_snd l
  rwa [h] at hp

theorem issued_next (h : l.next.value = (.ok t, m)) :
    m.issued = if t.isEof then l.issued else l.issued + 1 := by
  obtain ⟨vs, b, hg, hr⟩ := next_cases h
  obtain ⟨_, hissued, _⟩ := hg.after
  rcases readToken_cases hr with ⟨_, rfl, rfl⟩ | ⟨c, cs, kind, _, _, hs, rfl, rfl⟩
  · exact hissued
  · rw [passToken, hissued, tokenItem_isEof hs]
    rfl

end Lexer
end SourceOutline
